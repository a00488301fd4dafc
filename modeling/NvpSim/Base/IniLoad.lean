/-
  What `IniFile::load` makes of a text.

  And whatever the text, a loaded file has only sections with TIDY names (`tidy_loadLoop`): names are trimmed
  and come from a single line, so a section whose name is not tidy is never found.

  The loop takes one line at a time (`loadLoop_line`).  Three kinds of lines matter: a header opens a section, an
  assignment sets one key of the open section and nothing else (`addLine_assignment`, `find_write`), and before
  the first header a line is skipped.  So what a text sets is read off line by line, without running the loop.
-/
import NvpSim.Base.IniFile
import Mathlib.Data.List.TakeWhile

namespace NvpSim.Base

open List Option Function

/-! ## Trimming -/

variable {s : List Char}

theorem eatLeadWhite_of_head (h : s.head? ≠ some ' ') : eatLeadWhite s = s := by
  unfold eatLeadWhite
  split
  · rfl
  · cases s with
    | nil => rfl
    | cons c cs =>
      rw [dropWhile_cons_of_neg]
      intro hc
      exact h (congrArg some (beq_iff_eq.mp hc))

theorem reverse_dropWhile_of_last (h : s.getLast? ≠ some ' ') : (s.reverse.dropWhile (· == ' ')).reverse = s := by
  rw [← head?_reverse] at h
  cases hr : s.reverse with
  | nil => rw [reverse_eq_nil_iff.mp hr]; rfl
  | cons c cs =>
    rw [hr] at h
    rw [dropWhile_cons_of_neg, ← hr, reverse_reverse]
    intro hc
    exact h (congrArg some (beq_iff_eq.mp hc))

theorem eatEndWhite_of_last (h : s.getLast? ≠ some ' ') : eatEndWhite s = s := by
  unfold eatEndWhite
  split
  · rfl
  · exact reverse_dropWhile_of_last h

/-- A text without spaces at its ends stays as it is. -/
theorem eatWhite_of_ends (hhead : s.head? ≠ some ' ') (hlast : s.getLast? ≠ some ' ') : eatWhite s = s := by
  unfold eatWhite
  rw [eatLeadWhite_of_head hhead, eatEndWhite_of_last hlast]

/-- **Trimming twice is trimming once.** -/
theorem eatWhite_idem (s : List Char) : eatWhite (eatWhite s) = eatWhite s := by
  by_cases hall : s.all (· == ' ') = true
  · have hlead : eatLeadWhite s = s := by unfold eatLeadWhite; rw [if_pos hall]
    have hend : eatEndWhite s = s := by unfold eatEndWhite; rw [if_pos hall]
    have hs : eatWhite s = s := by unfold eatWhite; rw [hlead, hend]
    rw [hs, hs]
  · -- what is left starts with something else than a blank, and then it ends with something else
    have hlead : eatLeadWhite s = s.dropWhile (· == ' ') := by
      unfold eatLeadWhite
      rw [if_neg hall]
    have hnot : ¬ (s.dropWhile (· == ' ')).all (· == ' ') = true := by
      intro h
      apply hall
      rw [← takeWhile_append_dropWhile (p := (· == ' ')) (l := s), all_append, h, Bool.and_true, List.all_eq_true]
      intro c hc
      exact mem_takeWhile_imp (p := (· == ' ')) hc
    obtain ⟨c, cs, hcs⟩ : ∃ c cs, s.dropWhile (· == ' ') = c :: cs := by
      cases hd : s.dropWhile (· == ' ') with
      | nil => rw [hd] at hnot; exact absurd rfl hnot
      | cons c cs => exact ⟨c, cs, rfl⟩
    have hc : c ≠ ' ' := by
      have hne := head?_dropWhile_ne ' ' s
      rw [hcs] at hne
      intro heq
      exact hne (congrArg some heq)
    have hend : eatWhite s = ((c :: cs).reverse.dropWhile (· == ' ')).reverse := by
      unfold eatWhite eatEndWhite
      rw [hlead, if_neg hnot, hcs]
    obtain ⟨tl, htl⟩ : ∃ tl, (c :: cs).reverse.dropWhile (· == ' ') = tl ++ [c] := by
      rw [reverse_cons, dropWhile_append]
      split
      · refine ⟨[], ?_⟩
        rw [dropWhile_cons_of_neg (by simpa using hc), nil_append]
      · exact ⟨_, rfl⟩
    apply eatWhite_of_ends
    · rw [hend, htl, reverse_append, reverse_singleton]
      intro heq
      exact hc (some.inj heq)
    · rw [hend, getLast?_reverse]
      exact head?_dropWhile_ne ' ' _

theorem mem_of_mem_eatEndWhite {c : Char} (h : c ∈ eatEndWhite s) : c ∈ s := by
  unfold eatEndWhite at h
  split at h
  · exact h
  · exact mem_reverse.mp ((dropWhile_sublist _).mem (mem_reverse.mp h))

theorem mem_of_mem_eatWhite {c : Char} (h : c ∈ eatWhite s) : c ∈ s := by
  have hlead := mem_of_mem_eatEndWhite h
  unfold eatLeadWhite at hlead
  split at hlead
  · exact hlead
  · exact (dropWhile_sublist _).mem hlead

/-! ## Names of sections -/

/-- The name of a section that can be found again: trimmed, and on one line. -/
def Tidy (name : List Char) : Prop := eatWhite name = name ∧ '\n' ∉ name

instance (name : List Char) : Decidable (Tidy name) := inferInstanceAs (Decidable (_ ∧ _))

namespace IniFile

variable {f f' : IniFile} {name key text rest : List Char} {openSection : Option (List Char)}

/-- All sections have tidy names. -/
def AllTidy (f : IniFile) : Prop := ∀ name, f name ≠ none → Tidy name

/-- A section with a tidy name may be added or replaced. -/
theorem AllTidy.update (h : f.AllTidy) (hname : Tidy name) (s : Option IniSection) : AllTidy (update f name s) := by
  intro name' hne
  by_cases heq : name' = name
  · rw [heq]
    exact hname
  · rw [update_of_ne heq] at hne
    exact h name' hne

variable {line : List Char}

/-- The name of a header is tidy. -/
theorem tidy_of_sectionHeader (hline : '\n' ∉ line) (h : sectionHeader line = some name) : Tidy name := by
  unfold sectionHeader at h
  split at h
  · cases h
    refine ⟨eatWhite_idem _, ?_⟩
    intro hmem
    have hmem' := mem_of_mem_eatWhite hmem
    exact hline (mem_of_mem_tail ((dropLast_sublist _).mem hmem'))
  · cases h

/-- A line keeps all names of sections tidy. -/
theorem tidy_loadLine (hline : '\n' ∉ line) (hf : f.AllTidy) (hopen : ∀ n ∈ openSection, Tidy n)
    {open' : Option (List Char)} (h : loadLine f openSection line = some (open', f')) :
    f'.AllTidy ∧ ∀ n ∈ open', Tidy n := by
  have hend : '\n' ∉ eatEndWhite line := fun hmem => hline (mem_of_mem_eatEndWhite hmem)
  unfold loadLine at h
  dsimp only at h
  split at h
  next name hname =>
    have htidy := tidy_of_sectionHeader hend hname
    cases h
    refine ⟨?_, ?_⟩
    · unfold addSection
      split
      · exact hf
      · exact hf.update htidy _
    · intro n hn
      cases hn
      exact htidy
  next =>
    split at h
    · cases h
      exact ⟨hf, hopen⟩
    next name =>
      obtain ⟨f₁, hf₁, heq⟩ := map_eq_some_iff.mp h
      obtain ⟨s, -, rfl⟩ := map_eq_some_iff.mp hf₁
      cases heq
      exact ⟨hf.update (hopen name rfl) _, hopen⟩

/-- **A loaded file has only tidy names**, whatever the text. -/
theorem tidy_loadLoop (hf : f.AllTidy) (hopen : ∀ n ∈ openSection, Tidy n)
    (h : loadLoop f openSection text = some f') : f'.AllTidy := by
  fun_induction loadLoop f openSection text with
  | case1 f openSection text => cases h; exact hf
  | case2 f openSection text c rest hdrop _ hline => cases h
  | case3 f openSection text c rest hdrop _ open₁ f₁ hline ih =>
    have hnone : '\n' ∉ (c :: rest).takeWhile (· != '\n') := by
      intro hmem
      have hbne : ('\n' != '\n') = true := mem_takeWhile_imp (p := (· != '\n')) hmem
      exact absurd hbne (by decide)
    obtain ⟨hf₁, hopen₁⟩ := tidy_loadLine hnone hf hopen hline
    exact ih hf₁ hopen₁ h

/-- **A name that is not tidy is never found.** -/
theorem find_untidy (h : load text = some f) (hname : ¬ Tidy name) (key : List Char) : f.find name key = none := by
  have htidy : f.AllTidy := tidy_loadLoop (fun _ hne => absurd rfl hne) (by nofun) h
  unfold find
  cases hs : f name with
  | none => rfl
  | some s =>
    refine absurd (htidy name ?_) hname
    rw [hs]
    exact some_ne_none s

/-! ## Lines that were written -/

/-- The key of a parameter: without whitespace or `=`, not starting with `[` nor ending with `+`. -/
structure PlainKey (key : List Char) : Prop where
  ne_nil : key ≠ []
  noSpace : ∀ c ∈ key, isSpace c = false
  noEq : '=' ∉ key
  head : key.head? ≠ some '['
  last : key.getLast? ≠ some '+'

instance (key : List Char) : Decidable (PlainKey key) :=
  decidable_of_iff (key ≠ [] ∧ (∀ c ∈ key, isSpace c = false) ∧ '=' ∉ key ∧ key.head? ≠ some '[' ∧
    key.getLast? ≠ some '+')
    ⟨fun h => ⟨h.1, h.2.1, h.2.2.1, h.2.2.2.1, h.2.2.2.2⟩, fun h => ⟨h.1, h.2, h.3, h.4, h.5⟩⟩

/-- A text without the blanks at its end. -/
def stripEnd (text : List Char) : List Char := (text.reverse.dropWhile (· == ' ')).reverse

/-- The value that an entry gets from the text of an assignment. -/
def stored (text : List Char) : List Char := eatWhite (stripEnd text)

/-- Set an entry of a section. -/
def write (f : IniFile) (name key value : List Char) : IniFile :=
  update f name (some (update ((f name).getD fun _ => none) key (some value)))

/-- What is written is found, and nothing else changes. -/
theorem find_write (f : IniFile) (name key value name' key' : List Char) : (f.write name key value).find name' key' =
      if name' = name ∧ key' = key then some value else f.find name' key' := by
  unfold find write
  by_cases hname : name' = name
  · subst hname
    rw [update_self, bind_some]
    by_cases hkey : key' = key
    · rw [hkey, update_self, if_pos ⟨rfl, rfl⟩]
    · rw [update_of_ne hkey, if_neg fun h => hkey h.2]
      cases f name' with
      | none => rfl
      | some s => rfl
  · rw [update_of_ne hname, if_neg fun h => hname h.1]

/-- A new section without entries does not change what is found. -/
theorem find_addSection (f : IniFile) (name name' key' : List Char) :
    (f.addSection name).find name' key' = f.find name' key' := by
  unfold find addSection
  cases hnone : f name with
  | some s => rfl
  | none =>
    dsimp only
    by_cases hname : name' = name
    · rw [hname, update_self, hnone]
      rfl
    · rw [update_of_ne hname]

/-- One round: spaces are skipped, and a line is taken up to its end. -/
theorem loadLoop_eq (f : IniFile) (openSection : Option (List Char)) (text : List Char) :
    loadLoop f openSection text =
      match text.dropWhile isSpace with
      | [] => some f
      | c :: rest =>
        (loadLine f openSection ((c :: rest).takeWhile (· != '\n'))).bind fun r =>
          loadLoop r.2 r.1 (nextLine (c :: rest)) := by
  rw [loadLoop]
  split
  next h => rw [h]
  next c rest h =>
    dsimp only
    rw [h]
    dsimp only
    cases loadLine f openSection ((c :: rest).takeWhile (· != '\n')) with
    | none => rfl
    | some r => rfl

theorem loadLoop_nil : loadLoop f openSection [] = some f := by
  rw [loadLoop_eq]
  rfl

/-- A space between lines is skipped. -/
theorem loadLoop_space {c : Char} (hc : isSpace c = true) :
    loadLoop f openSection (c :: rest) = loadLoop f openSection rest := by
  rw [loadLoop_eq, loadLoop_eq f openSection rest, dropWhile_cons_of_pos hc]

/-- **A line** is read on its own. -/
theorem loadLoop_line {c : Char} (hc : isSpace c = false) (hnl : '\n' ∉ c :: line) :
    loadLoop f openSection (c :: line ++ '\n' :: rest) =
      (loadLine f openSection (c :: line)).bind fun r => loadLoop r.2 r.1 rest := by
  have hdrop : (c :: line ++ '\n' :: rest).dropWhile isSpace = c :: (line ++ '\n' :: rest) := by
    rw [cons_append, dropWhile_cons_of_neg (by rw [hc]; decide)]
  have hne : ∀ x ∈ c :: line, (x != '\n') = true := by
    intro x hx
    rw [bne_iff_ne]
    intro heq
    exact hnl (heq ▸ hx)
  have htake : (c :: (line ++ '\n' :: rest)).takeWhile (· != '\n') = c :: line := by
    rw [← cons_append, takeWhile_append_of_pos hne, takeWhile_cons_of_neg (by decide), append_nil]
  have hnext : nextLine (c :: (line ++ '\n' :: rest)) = rest := by
    unfold nextLine
    rw [← cons_append, dropWhile_append_of_pos hne]
    rfl
  rw [loadLoop_eq, hdrop]
  dsimp only
  rw [htake, hnext]

/-- **The header of a section** opens it. -/
theorem loadLoop_header (hname : Tidy name) : loadLoop f openSection ('[' :: name ++ ']' :: '\n' :: rest) =
      loadLoop (f.addSection name) (some name) rest := by
  have hnl : '\n' ∉ '[' :: (name ++ [']']) :=
    not_mem_cons_of_ne_of_not_mem (by decide) (not_mem_append hname.2 (by decide))
  have hlast : ('[' :: (name ++ [']'])).getLast? = some ']' := by
    rw [← cons_append, getLast?_concat]
  have hheader : sectionHeader ('[' :: (name ++ [']'])) = some name := by
    unfold sectionHeader
    rw [if_pos ⟨rfl, hlast⟩, tail_cons, dropLast_concat, hname.1]
  have hline : loadLoop f openSection ('[' :: (name ++ [']']) ++ '\n' :: rest) = _ :=
    loadLoop_line (by decide) hnl
  rw [cons_append, append_assoc, singleton_append] at hline
  rw [cons_append, hline]
  unfold loadLine
  dsimp only
  rw [eatEndWhite_of_last (by rw [hlast]; decide), hheader]
  rfl

theorem eatEndWhite_assignment (key text : List Char) :
    eatEndWhite (key ++ '=' :: text) = key ++ '=' :: stripEnd text := by
  have hnot : ¬ (key ++ '=' :: text).all (· == ' ') = true := by
    intro h
    rw [List.all_eq_true] at h
    have heq := h '=' (mem_append_right _ (mem_cons_self ..))
    exact absurd heq (by decide)
  unfold eatEndWhite stripEnd
  rw [if_neg hnot, reverse_append, reverse_cons, append_assoc, dropWhile_append]
  split
  next hempty =>
    rw [List.isEmpty_iff] at hempty
    rw [hempty, singleton_append]
    simp
  next => simp

theorem takeWhile_key (hkey : '=' ∉ key) : (key ++ '=' :: text).takeWhile (· != '=') = key ∧
      (key ++ '=' :: text).dropWhile (· != '=') = '=' :: text := by
  have hne : ∀ c ∈ key, (c != '=') = true := by
    intro c hc
    rw [bne_iff_ne]
    intro heq
    exact hkey (heq ▸ hc)
  rw [takeWhile_append_of_pos hne, dropWhile_append_of_pos hne,
    takeWhile_cons_of_neg (by decide), dropWhile_cons_of_neg (by decide), append_nil]
  exact ⟨rfl, rfl⟩

/-- **An assignment** sets its key; what comes after `=` loses the spaces at its ends. -/
theorem addLine_assignment (hkey : PlainKey key) :
    f.addLine name (key ++ '=' :: text) = some (f.write name key (eatWhite text)) := by
  have htake : (key ++ '=' :: text).takeWhile (· != '=') = key := (takeWhile_key hkey.noEq).1
  have hdrop : (key ++ '=' :: text).dropWhile (· != '=') = '=' :: text := (takeWhile_key hkey.noEq).2
  obtain ⟨c, hlast⟩ : ∃ c, key.getLast? = some c :=
    ne_none_iff_exists'.mp fun h => hkey.ne_nil (getLast?_eq_none_iff.mp h)
  have hplus : ¬ (c == '+') = true := by
    intro h
    exact hkey.last (hlast.trans (congrArg some (beq_iff_eq.mp h)))
  have hblank : ∀ x ∈ key, x ≠ ' ' := by
    intro x hx heq
    have := hkey.noSpace x hx
    rw [heq] at this
    exact absurd this (by decide)
  have hwhite : eatWhite key = key := by
    apply eatWhite_of_ends
    · intro h
      exact hblank _ (mem_of_mem_head? h) rfl
    · intro h
      exact hblank _ (mem_of_mem_getLast? h) rfl
  have hentry : ∀ s : IniSection, s.addEntry key (eatWhite text) (c == '+') =
      update s key (some (eatWhite text)) := by
    intro s
    unfold IniSection.addEntry
    split
    · rfl
    · rw [if_neg hplus]
  unfold addLine IniSection.add write
  rw [htake, hdrop]
  dsimp only
  rw [hlast]
  dsimp only
  rw [if_neg hplus, hwhite, hentry]
  rfl

/-- **A line that assigns to a plain key**, in an open section. -/
theorem loadLoop_assignment (hkey : PlainKey key) (htext : '\n' ∉ text) :
    loadLoop f (some name) (key ++ '=' :: text ++ '\n' :: rest) =
      loadLoop (f.write name key (stored text)) (some name) rest := by
  obtain ⟨c, cs, rfl⟩ := exists_cons_of_ne_nil hkey.ne_nil
  have hnl : '\n' ∉ c :: (cs ++ '=' :: text) := by
    rw [← cons_append]
    refine not_mem_append (fun h => ?_) (not_mem_cons_of_ne_of_not_mem (by decide) htext)
    exact absurd (hkey.noSpace '\n' h) (by decide)
  have hheader : sectionHeader (c :: cs ++ '=' :: stripEnd text) = none := by
    unfold sectionHeader
    rw [if_neg]
    intro h
    exact hkey.head h.1
  have hline : loadLoop f (some name) (c :: (cs ++ '=' :: text) ++ '\n' :: rest) = _ :=
    loadLoop_line (hkey.noSpace c (mem_cons_self ..)) hnl
  rw [← cons_append] at hline
  rw [hline]
  unfold loadLine
  dsimp only
  rw [eatEndWhite_assignment, hheader]
  rw [addLine_assignment hkey]
  rfl

/-- Before the first header lines are skipped. -/
theorem loadLoop_comment {c : Char} {line : List Char} (hc : isSpace c = false) (hopen : c ≠ '[')
    (hnl : '\n' ∉ c :: line) : loadLoop f none (c :: line ++ '\n' :: rest) = loadLoop f none rest := by
  have hhead : (eatEndWhite (c :: line)).head? ≠ some '[' := by
    intro h
    have hhead : (eatEndWhite (c :: line)).head? = some c := by
      unfold eatEndWhite
      split
      · rfl
      · rw [reverse_cons, dropWhile_append]
        split
        · rw [dropWhile_cons_of_neg]
          · rfl
          · intro hblank
            rw [beq_iff_eq.mp hblank] at hc
            exact absurd hc (by decide)
        · rw [reverse_append]
          rfl
    rw [hhead] at h
    exact hopen (some.inj h)
  rw [loadLoop_line hc hnl]
  unfold loadLine sectionHeader
  dsimp only
  rw [if_neg fun h => hhead h.1]
  rfl

end IniFile

end NvpSim.Base
