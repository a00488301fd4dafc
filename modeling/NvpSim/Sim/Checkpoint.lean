/-
  A parameter that is written to a checkpoint is read back from it.

  The checkpoint is a whole file: a line with the date, and then sections of parameters, one for each object
  (`Checkpoint`).

  1. **Arrays.**  No element is written with a blank in it, so the array is cut where it was joined
     (`tokenize_showArray`).

  2. **Files.**  The other sections and entries leave what is found under a key (`loadLoop_blocks`), and the text of
     the entry is found as it was written (`Checkpoint.find_text`).

  3. **Values.**  What is parsed is the value that was printed, where `to_number` does not refuse it
     (`parseParam_eq_some_iff`).
-/
import NvpSim.Base.IniLoad
import NvpSim.Sim.ParamText
import Mathlib.Tactic.NormNum

namespace NvpSim.Sim

open NvpSim.Base NvpSim.Base.IniFile NvpSim.Lib.Numeral List Option

/-! ## Arrays are split into their elements -/

theorem blank_notMem {w : List Char} (h : Word w) : ∀ c ∈ w, (c != ' ') = true := by
  intro c hc
  rw [bne_iff_ne]
  rintro rfl
  exact absurd (h.2 ' ' hc) (by decide)

/-- A word is one token. -/
theorem tokenizeLoop_word {w : List Char} (h : Word w) : tokenizeLoop ' ' true w = [w] := by
  rw [tokenizeLoop]
  split
  · rfl
  next c rest hdrop =>
    have hnil : w.dropWhile (· != ' ') = [] := by
      rw [dropWhile_eq_nil_iff]
      exact blank_notMem h
    rw [hnil] at hdrop
    cases hdrop

/-- A word and a space in front of a text. -/
theorem tokenizeLoop_cons {w s : List Char} (h : Word w) (hs : s ≠ []) (hhead : s.head? ≠ some ' ') :
    tokenizeLoop ' ' true (w ++ ' ' :: s) = w :: tokenizeLoop ' ' true s := by
  have hdrop : (w ++ ' ' :: s).dropWhile (· != ' ') = ' ' :: s := by
    rw [dropWhile_append_of_pos (blank_notMem h), dropWhile_cons_of_neg (by decide)]
  have htake : (w ++ ' ' :: s).takeWhile (· != ' ') = w := by
    rw [takeWhile_append_of_pos (blank_notMem h), takeWhile_cons_of_neg (by decide), append_nil]
  have hskip : s.dropWhile (· == ' ') = s := by
    cases s with
    | nil => rfl
    | cons c cs =>
      rw [dropWhile_cons_of_neg]
      intro hc
      exact hhead (congrArg some (beq_iff_eq.mp hc))
  rw [tokenizeLoop]
  split
  next h' => rw [hdrop] at h'; cases h'
  next c rest h' =>
    rw [hdrop] at h'
    cases h'
    rw [htake, if_pos rfl, hskip, if_neg (by simpa using hs)]

variable (T : ScalarType)

theorem head?_showParam (v : T.Mem) (rest : List Char) : (T.showParam v ++ rest).head? ≠ some ' ' := by
  obtain ⟨hne, hspace⟩ := T.word_showParam v
  obtain ⟨c, cs, hcs⟩ := exists_cons_of_ne_nil hne
  rw [hcs]
  intro h
  have hc : c = ' ' := some.inj h
  have := hspace c (by rw [hcs]; exact mem_cons_self ..)
  rw [hc] at this
  exact absurd this (by decide)

/-- **An array is cut into the texts of its elements.** -/
theorem tokenizeLoop_showArray (v : T.Mem) (vs : List T.Mem) :
    tokenizeLoop ' ' true (T.showParam v ++ showRest T vs) = (v :: vs).map T.showParam := by
  induction vs generalizing v with
  | nil =>
    rw [showRest, append_nil, tokenizeLoop_word (T.word_showParam v)]
    rfl
  | cons v' vs ih =>
    have hne : T.showParam v' ++ showRest T vs ≠ [] :=
      append_ne_nil_of_left_ne_nil (T.word_showParam v').1 _
    rw [showRest, cons_append, tokenizeLoop_cons (T.word_showParam v) hne (head?_showParam T v' _), ih v']
    rfl

/-- **The tokens of an array are the texts of its elements.** -/
theorem tokenize_showArray (vs : List T.Mem) : tokenize (showArray T vs) ' ' true = vs.map T.showParam := by
  cases vs with
  | nil => rfl
  | cons v vs =>
    have hne : T.showParam v ++ showRest T vs ≠ [] :=
      append_ne_nil_of_left_ne_nil (T.word_showParam v).1 _
    unfold tokenize showArray
    rw [if_neg (by simpa using hne), if_neg, tokenizeLoop_showArray]
    intro h
    rw [Bool.true_and, beq_iff_eq] at h
    exact head?_showParam T v _ h

/-! ## What is stored is what was written -/

theorem getLast?_word {w : List Char} (h : Word w) (s : List Char) : (s ++ w).getLast? ≠ some ' ' := by
  intro hlast
  rw [getLast?_append_of_ne_nil _ h.1] at hlast
  exact absurd (h.2 ' ' (mem_of_mem_getLast? hlast)) (by decide)

theorem getLast?_showArray (vs : List T.Mem) : (showArray T vs).getLast? ≠ some ' ' := by
  have hrest : ∀ (vs : List T.Mem) (s w : List Char), Word w → (s ++ w ++ showRest T vs).getLast? ≠ some ' ' := by
    intro vs
    induction vs with
    | nil =>
      intro s w hw
      rw [showRest, append_nil]
      exact getLast?_word hw s
    | cons v vs ih =>
      intro s w hw
      have := ih (s ++ w ++ [' ']) (T.showParam v) (T.word_showParam v)
      rw [showRest]
      simpa using this
  cases vs with
  | nil => exact nofun
  | cons v vs => exact hrest vs [] (T.showParam v) (T.word_showParam v)

theorem head?_showArray (vs : List T.Mem) : (showArray T vs).head? ≠ some ' ' := by
  cases vs with
  | nil => exact nofun
  | cons v vs => exact head?_showParam T v _

/-- An array is written on one line. -/
theorem newline_notMem_showArray (vs : List T.Mem) : '\n' ∉ showArray T vs := by
  have hword : ∀ v, '\n' ∉ T.showParam v := by
    intro v h
    exact absurd ((T.word_showParam v).2 '\n' h) (by decide)
  have hrest : ∀ vs, '\n' ∉ showRest T vs := by
    intro vs
    induction vs with
    | nil => exact not_mem_nil
    | cons v vs ih =>
      rw [showRest]
      exact not_mem_cons_of_ne_of_not_mem (by decide) (not_mem_append (hword v) ih)
  cases vs with
  | nil => exact not_mem_nil
  | cons v vs =>
    exact not_mem_append (hword v) (hrest vs)

/-- A text without spaces at its ends is stored as it is. -/
theorem stored_of_ends {text : List Char} (hhead : text.head? ≠ some ' ')
    (hlast : text.getLast? ≠ some ' ') : stored text = text := by
  have hstrip : stripEnd text = text := reverse_dropWhile_of_last hlast
  unfold stored
  rw [hstrip, eatWhite_of_ends hhead hlast]

/-! ## Checkpoint files -/

/-- A parameter of a file: its name and its text. -/
abbrev ParamEntry := List Char × List Char

/-- A section of a file: its name and its parameters. -/
abbrev ParamBlock := List Char × List ParamEntry

/-- The name is plain, and the text on one line. -/
def ParamEntry.Plain (e : ParamEntry) : Prop := PlainKey e.1 ∧ '\n' ∉ e.2

/-- The name of the section and the entries are such as `IniFile` can read. -/
def ParamBlock.Plain (b : ParamBlock) : Prop := Tidy b.1 ∧ ∀ e ∈ b.2, ParamEntry.Plain e

/-- The parameters of a section, as written. -/
def entriesText (es : List ParamEntry) : List Char := es.flatMap fun e => assignment e.1 e.2

/-- The sections one after the other. -/
def blocksText (bs : List ParamBlock) : List Char := bs.flatMap fun b => nameOut b.1 ++ entriesText b.2

/-- What stands around a parameter in a checkpoint: the date, the sections before, the parameters before and
    after it in its own section, and the sections after. -/
structure Checkpoint where
  date : List Char
  before : List ParamBlock
  front : List ParamEntry
  back : List ParamEntry
  after : List ParamBlock
  date_line : '\n' ∉ date
  before_plain : ∀ b ∈ before, b.Plain
  front_plain : ∀ e ∈ front, e.Plain
  back_plain : ∀ e ∈ back, e.Plain
  after_plain : ∀ b ∈ after, b.Plain

namespace Checkpoint

/-- The file with the text of a parameter in a section. -/
def text (cp : Checkpoint) (section_ param : List Char) : List Char :=
  "## checkpoint generated: ".toList ++ cp.date ++ '\n' ::
    (blocksText cp.before ++ (nameOut section_ ++ (entriesText cp.front ++ (param ++
      (entriesText cp.back ++ blocksText cp.after)))))

/-- The parameter is not written again afterwards. -/
def Keeps (cp : Checkpoint) (section_ key : List Char) : Prop :=
  (∀ e ∈ cp.back, e.1 ≠ key) ∧ ∀ b ∈ cp.after, b.1 = section_ → ∀ e ∈ b.2, e.1 ≠ key

end Checkpoint

variable {f : IniFile} {name key rest : List Char}

/-- A header opens its section. -/
theorem loadLoop_nameOut (hname : Tidy name) {openSection : Option (List Char)} :
    loadLoop f openSection (nameOut name ++ rest) = loadLoop (f.addSection name) (some name) rest := by
  have htext : nameOut name ++ rest = '\n' :: ('[' :: name ++ ']' :: '\n' :: rest) := by
    unfold nameOut
    simp
  rw [htext, loadLoop_space (by decide), loadLoop_header hname]

/-- An entry is written into the open section. -/
theorem loadLoop_entry {e : ParamEntry} (he : e.Plain) : loadLoop f (some name) (assignment e.1 e.2 ++ rest) =
      loadLoop (f.write name e.1 (stored e.2)) (some name) rest := by
  have htext : assignment e.1 e.2 ++ rest = e.1 ++ '=' :: e.2 ++ '\n' :: rest := by
    unfold assignment
    simp
  rw [htext, loadLoop_assignment he.1 he.2]

/-- **The entries of a section**: those of other keys leave what is found under a key. -/
theorem loadLoop_entries : ∀ {es : List ParamEntry} {f : IniFile}, (∀ e ∈ es, e.Plain) →
    ∃ f', (∀ rest, loadLoop f (some name) (entriesText es ++ rest) = loadLoop f' (some name) rest) ∧
      ∀ name' key', (name' = name → ∀ e ∈ es, e.1 ≠ key') → f'.find name' key' = f.find name' key' := by
  intro es
  induction es with
  | nil =>
    intro f _
    exact ⟨f, fun _ => rfl, fun _ _ _ => rfl⟩
  | cons e es ih =>
    intro f hes
    obtain ⟨f', hload, hfind⟩ := ih (f := f.write name e.1 (stored e.2)) (forall_mem_cons.mp hes).2
    refine ⟨f', ?_, ?_⟩
    · intro rest
      have htext : entriesText (e :: es) ++ rest = assignment e.1 e.2 ++ (entriesText es ++ rest) := by
        unfold entriesText
        rw [flatMap_cons, append_assoc]
      rw [htext, loadLoop_entry (hes e (mem_cons_self ..)), hload]
    · intro name' key' hne
      rw [hfind name' key' fun hn e' he' => hne hn e' (mem_cons_of_mem _ he'), find_write, if_neg]
      rintro ⟨hn, hk⟩
      exact hne hn e (mem_cons_self ..) hk.symm

/-- **The sections before and after** leave what is found under a key that they do not have. -/
theorem loadLoop_blocks : ∀ {bs : List ParamBlock} {f : IniFile} {openSection : Option (List Char)},
    (∀ b ∈ bs, b.Plain) →
      ∃ f' open', (∀ rest, loadLoop f openSection (blocksText bs ++ rest) = loadLoop f' open' rest) ∧
        ∀ name' key', (∀ b ∈ bs, b.1 = name' → ∀ e ∈ b.2, e.1 ≠ key') → f'.find name' key' = f.find name' key' := by
  intro bs
  induction bs with
  | nil =>
    intro f openSection _
    exact ⟨f, openSection, fun _ => rfl, fun _ _ _ => rfl⟩
  | cons b bs ih =>
    intro f openSection hbs
    obtain ⟨hname, hes⟩ := hbs b (mem_cons_self ..)
    obtain ⟨f₁, hload₁, hfind₁⟩ := @loadLoop_entries b.1 _ (f.addSection b.1) hes
    obtain ⟨f', open', hload, hfind⟩ := @ih f₁ (some b.1) (forall_mem_cons.mp hbs).2
    refine ⟨f', open', ?_, ?_⟩
    · intro rest
      have htext : blocksText (b :: bs) ++ rest = nameOut b.1 ++ (entriesText b.2 ++ (blocksText bs ++ rest)) := by
        unfold blocksText
        rw [flatMap_cons, append_assoc, append_assoc]
      rw [htext, loadLoop_nameOut hname, hload₁, hload]
    · intro name' key' hne
      rw [hfind name' key' (forall_mem_cons.mp hne).2,
        hfind₁ name' key' fun hn => hne b (mem_cons_self ..) hn.symm, find_addSection]

/-- **A parameter is found in the file**, with its text trimmed. -/
theorem Checkpoint.find_text (cp : Checkpoint) {section_ : List Char} (hsection : Tidy section_)
    (hkeeps : cp.Keeps section_ key) {e : ParamEntry} (he : e.Plain) (hkey : e.1 = key) :
    ∃ f, load (cp.text section_ (assignment e.1 e.2)) = some f ∧ f.find section_ key = some (stored e.2) := by
  have hcomment : '\n' ∉ '#' :: ("# checkpoint generated: ".toList ++ cp.date) := by
    intro h
    rw [← cons_append] at h
    rcases mem_append.mp h with h | h
    · exact absurd h (by decide)
    · exact cp.date_line h
  obtain ⟨f₁, open₁, hload₁, -⟩ := @loadLoop_blocks _ IniFile.empty none cp.before_plain
  obtain ⟨f₂, hload₂, -⟩ := @loadLoop_entries section_ _ (f₁.addSection section_) cp.front_plain
  obtain ⟨f₃, hload₃, hfind₃⟩ := @loadLoop_entries section_ _ (f₂.write section_ e.1 (stored e.2)) cp.back_plain
  obtain ⟨f₄, open₄, hload₄, hfind₄⟩ := @loadLoop_blocks _ f₃ (some section_) cp.after_plain
  refine ⟨f₄, ?_, ?_⟩
  · show loadLoop _ none ('#' :: ("# checkpoint generated: ".toList ++ cp.date) ++ '\n' :: _) = _
    rw [loadLoop_comment (by decide) (by decide) hcomment, hload₁, loadLoop_nameOut hsection, hload₂,
      loadLoop_entry he, hload₃]
    have hend := hload₄ []
    rw [append_nil, loadLoop_nil] at hend
    exact hend
  · rw [hfind₄ _ _ hkeeps.2, hfind₃ _ _ fun _ => hkeeps.1, find_write, if_pos ⟨rfl, hkey.symm⟩]

/-- A text without spaces at its ends is read back from the checkpoint. -/
theorem Checkpoint.read_text (cp : Checkpoint) {section_ : List Char} (hkey : PlainKey key)
    (hkeeps : cp.Keeps section_ key) {text : List Char} (hnl : '\n' ∉ text)
    (hhead : text.head? ≠ some ' ') (hlast : text.getLast? ≠ some ' ') :
    ((load (cp.text section_ (assignment key text))).bind fun f => f.find section_ key) =
      if Tidy section_ then some text else none := by
  by_cases hsection : Tidy section_
  · obtain ⟨f, hload, hfind⟩ := cp.find_text (e := (key, text)) hsection hkeeps ⟨hkey, hnl⟩ rfl
    rw [if_pos hsection]
    show (load (cp.text section_ (assignment (key, text).1 (key, text).2))).bind _ = _
    rw [hload, bind_some, hfind, stored_of_ends hhead hlast]
  · rw [if_neg hsection]
    cases hload : load (cp.text section_ (assignment key text)) with
    | none => rfl
    | some f =>
      rw [bind_some]
      exact find_untidy hload hsection key

/-- So is what is parsed from the text of an array. -/
theorem Checkpoint.read_bind (cp : Checkpoint) {section_ : List Char} (hkey : PlainKey key)
    (hkeeps : cp.Keeps section_ key) (vs : List T.Mem) {α : Type} (parse : List Char → Option α) (a : α) :
    ((load (cp.text section_ (arrayParamOut T key vs))).bind fun f =>
        (f.find section_ key).bind parse) = some a ↔
      Tidy section_ ∧ parse (showArray T vs) = some a := by
  have hread := cp.read_text hkey hkeeps (newline_notMem_showArray T vs) (head?_showArray T vs)
    (getLast?_showArray T vs)
  rw [← bind_assoc]
  show ((load (cp.text section_ (assignment key (showArray T vs)))).bind _).bind parse = _ ↔ _
  rw [hread]
  by_cases hsection : Tidy section_
  · rw [if_pos hsection]
    exact ⟨fun h => ⟨hsection, h⟩, fun h => h.2⟩
  · rw [if_neg hsection]
    exact ⟨nofun, fun h => absurd h.1 hsection⟩

/-- **A value is read back** exactly if it is in the range of what is printed. -/
theorem parseParam_eq_some_iff (v : T.Mem) : T.parseParam (T.showParam v) = some (T.val v) ↔ T.InRange v := by
  obtain ⟨hok, hrefused⟩ := T.parseParam_showParam v
  refine ⟨fun h => ?_, hok⟩
  by_contra hv
  rw [hrefused hv] at h
  cases h

/-- The same for each element of an array. -/
theorem mapM_parseParam (vs : List T.Mem) :
    (vs.map T.showParam).mapM T.parseParam = some (vs.map T.val) ↔ ∀ v ∈ vs, T.InRange v := by
  induction vs with
  | nil => exact ⟨nofun, fun _ => rfl⟩
  | cons v vs ih =>
    obtain ⟨hok, hrefused⟩ := T.parseParam_showParam v
    rw [map_cons, mapM_cons, forall_mem_cons]
    by_cases hv : T.InRange v
    · rw [hok hv]
      show ((vs.map T.showParam).mapM T.parseParam).bind (fun ws => some (T.val v :: ws)) = _ ↔ _
      constructor
      · intro h
        obtain ⟨ws, hws, heq⟩ := bind_eq_some_iff.mp h
        cases heq
        exact ⟨hv, ih.mp hws⟩
      · rintro ⟨-, hvs⟩
        rw [ih.mpr hvs]
        rfl
    · rw [hrefused hv]
      exact ⟨nofun, fun h => absurd h.1 hv⟩

/-- **Parameters round-trip, if the name of the section is tidy and the values are in range.**  In every
    checkpoint, for every section, plain key and type: a scalar written with `paramOut`, and an array or a
    vector written with `arrayParamOut`, is found by `load` and read back as the same value exactly if the
    name of the section is trimmed and on one line, and every floating-point value among them is at least
    the smallest positive normal number of its type. -/
theorem checkpoint_round_trip (cp : Checkpoint) {section_ : List Char} (hkey : PlainKey key)
    (hkeeps : cp.Keeps section_ key) : (∀ v : T.Mem,
      (load (cp.text section_ (paramOut T key v))).bind (fun f => paramIn T f section_ key) =
        some (T.val v) ↔ Tidy section_ ∧ T.InRange v) ∧ ∀ vs : List T.Mem,
      ((load (cp.text section_ (arrayParamOut T key vs))).bind
          (fun f => arrayParamIn T f section_ key vs.length) = some (vs.map T.val) ↔
        Tidy section_ ∧ ∀ v ∈ vs, T.InRange v) ∧ ((load (cp.text section_ (arrayParamOut T key vs))).bind
          (fun f => vectorParamIn T f section_ key) = some (vs.map T.val) ↔
        Tidy section_ ∧ ∀ v ∈ vs, T.InRange v) := by
  refine ⟨fun v => ?_, fun vs => ⟨?_, ?_⟩⟩
  · have harray : showArray T [v] = T.showParam v := append_nil _
    have hread := cp.read_bind T hkey hkeeps [v] T.parseParam (T.val v)
    rw [arrayParamOut, harray, parseParam_eq_some_iff] at hread
    exact hread
  · refine (cp.read_bind T hkey hkeeps vs _ _).trans (and_congr_right fun _ => ?_)
    rw [tokenize_showArray]
    dsimp only
    rw [length_map, if_neg (not_not.mpr rfl), mapM_parseParam]
  · refine (cp.read_bind T hkey hkeeps vs _ _).trans (and_congr_right fun _ => ?_)
    rw [tokenize_showArray, mapM_parseParam]

/-- The checkpoint of a system: the globals, and a clock domain with other parameters around. -/
def smallCheckpoint : Checkpoint where
  date := "Thu Jan  1 00:00:00 1970".toList
  before := [("Globals".toList, [("curTick".toList, "5000".toList)])]
  front := [("freq".toList, "1e+09".toList)]
  back := [("name".toList, "a b = c".toList)]
  after := [("MainEventQueue".toList, [])]
  date_line := by decide
  before_plain := forall_mem_singleton.mpr ⟨by decide, forall_mem_singleton.mpr ⟨by decide, by decide⟩⟩
  front_plain := forall_mem_singleton.mpr ⟨by decide, by decide⟩
  back_plain := forall_mem_singleton.mpr ⟨by decide, by decide⟩
  after_plain := forall_mem_singleton.mpr ⟨by decide, nofun⟩

/-- One, and minus one. -/
def unitFloat (neg : Bool) : ScalarType.Mem (.float .float) :=
  ⟨⟨neg, 100000, 0, by decide⟩, by
    cases neg <;> norm_num [DecimalFloat.value, FloatType.max]⟩

def zeroFloat : ScalarType.Mem (.float .float) :=
  ⟨⟨false, 0, 0, by decide⟩, by norm_num [DecimalFloat.value, FloatType.max]⟩

theorem smallCheckpoint_keeps : smallCheckpoint.Keeps "system.clk".toList "voltage".toList := by
  exact ⟨forall_mem_singleton.mpr (by decide), forall_mem_singleton.mpr fun hname => absurd hname (by decide)⟩

theorem checkpoint_round_trip_voltage : (load (smallCheckpoint.text "system.clk".toList
        (paramOut (.float .float) "voltage".toList (unitFloat false)))).bind
          (fun f => paramIn (.float .float) f "system.clk".toList "voltage".toList) =
      some (ScalarType.val (.float .float) (unitFloat false)) := by
  refine ((checkpoint_round_trip (.float .float) smallCheckpoint (by decide)
    smallCheckpoint_keeps).1 _).mpr ⟨by decide, ?_⟩
  show FloatType.min .float ≤ (unitFloat false).1.value
  norm_num [DecimalFloat.value, FloatType.min, unitFloat]

/-- **Zero and negative numbers are refused**: the checkpoint is written and loaded, but reading the parameter
    is fatal. -/
theorem zero_and_negative_refused : (∃ f, load (smallCheckpoint.text "system.clk".toList
        (paramOut (.float .float) "voltage".toList zeroFloat)) = some f ∧
      f.find "system.clk".toList "voltage".toList = some "0".toList ∧
      paramIn (.float .float) f "system.clk".toList "voltage".toList = none) ∧
    ∃ f, load (smallCheckpoint.text "system.clk".toList
        (paramOut (.float .float) "voltage".toList (unitFloat true))) = some f ∧
      f.find "system.clk".toList "voltage".toList = some "-1".toList ∧
      paramIn (.float .float) f "system.clk".toList "voltage".toList = none := by
  have hrefused : ∀ v : ScalarType.Mem (.float .float), ¬ FloatType.min .float ≤ v.1.value →
      ∃ f, load (smallCheckpoint.text "system.clk".toList (paramOut (.float .float) "voltage".toList v)) = some f ∧
        f.find "system.clk".toList "voltage".toList = some v.1.text ∧
        paramIn (.float .float) f "system.clk".toList "voltage".toList = none := by
    intro v hv
    have hplain : PlainKey "voltage".toList := by decide
    have harray : showArray (.float .float) [v] = v.1.text := append_nil _
    have hnl := newline_notMem_showArray (.float .float) [v]
    have hhead := head?_showArray (.float .float) [v]
    have hlast := getLast?_showArray (.float .float) [v]
    rw [harray] at hnl hhead hlast
    obtain ⟨f, hload, hfind⟩ := smallCheckpoint.find_text (e := ("voltage".toList, v.1.text))
      (by decide) smallCheckpoint_keeps ⟨hplain, hnl⟩ rfl
    rw [stored_of_ends hhead hlast] at hfind
    refine ⟨f, hload, hfind, ?_⟩
    unfold paramIn
    rw [hfind, bind_some]
    exact (ScalarType.parseParam_showParam (.float .float) v).2 hv
  refine ⟨hrefused zeroFloat ?_, hrefused (unitFloat true) ?_⟩
  · norm_num [DecimalFloat.value, FloatType.min, zeroFloat]
  · norm_num [DecimalFloat.value, FloatType.min, unitFloat]

end NvpSim.Sim
