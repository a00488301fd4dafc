/-
  The text of a parameter is read back as the same value, if the value is one that `to_number` takes.

  The text of a value is a WORD, without whitespace: so an array is split into the texts of its elements.  A
  floating-point text has one of three forms, and each denotes the value that was written.

  `__to_number` compares a floating-point number with `numeric_limits<T>::min()`, the smallest POSITIVE normal
  number: zero, negative and subnormal numbers are refused (`InRange`).
-/
import NvpSim.Sim.Serialize

namespace NvpSim.Sim

open NvpSim.Base NvpSim.Lib.Numeral List Option

/-! ## Words -/

/-- A text without whitespace. -/
def Word (s : List Char) : Prop := s ≠ [] ∧ ∀ c ∈ s, isSpace c = false

theorem isSpace_of_isDigit {c : Char} (h : isDigit 10 c = true) : isSpace c = false := by
  cases hs : isSpace c with
  | false => rfl
  | true =>
    exfalso
    unfold isSpace at hs
    simp only [Bool.or_eq_true, beq_iff_eq] at hs
    rcases hs with ((((rfl | rfl) | rfl) | rfl) | rfl) | rfl <;> exact absurd h (by decide)

/-- Digits have no space among them. -/
theorem word_digits {ds : List Char} (hne : ds ≠ []) (h : ∀ c ∈ ds, isDigit 10 c = true) : Word ds :=
  ⟨hne, fun c hc => isSpace_of_isDigit (h c hc)⟩

theorem word_toDigits (n : Nat) : Word (Nat.toDigits 10 n) :=
  word_digits Nat.toDigits_ne_nil fun _ hc => isDigit_of_mem_toDigits hc

theorem Word.append {s s' : List Char} (h : Word s) (h' : Word s') : Word (s ++ s') := by
  exact ⟨append_ne_nil_of_left_ne_nil h.1 _, forall_mem_append.mpr ⟨h.2, h'.2⟩⟩

theorem Word.cons {s : List Char} {c : Char} (hc : isSpace c = false) (h : Word s) : Word (c :: s) := by
  have hsingle : Word [c] := by
    refine ⟨cons_ne_nil _ _, ?_⟩
    intro c' hc'
    rw [mem_singleton.mp hc']
    exact hc
  exact hsingle.append h

/-- There is no leading space to skip. -/
theorem Word.dropWhile_isSpace {s : List Char} (h : Word s) : s.dropWhile isSpace = s := by
  cases s with
  | nil => rfl
  | cons c cs =>
    rw [dropWhile_cons_of_neg]
    rw [h.2 c (mem_cons_self ..)]
    decide

/-! ## Integers -/

/-- A text that begins with a digit has no sign. -/
theorem sign_digit {c : Char} {cs : List Char} (hc : isDigit 10 c = true) : sign (c :: cs) = (false, c :: cs) := by
  unfold sign
  split
  next cs' heq =>
    cases heq
    exact absurd hc (by decide)
  next cs' heq =>
    cases heq
    exact absurd hc (by decide)
  next => rfl

theorem sign_toDigits (n : Nat) (rest : List Char) :
    sign (Nat.toDigits 10 n ++ rest) = (false, Nat.toDigits 10 n ++ rest) := by
  cases h : Nat.toDigits 10 n with
  | nil => exact absurd h Nat.toDigits_ne_nil
  | cons c cs =>
    refine sign_digit (isDigit_of_mem_toDigits (n := n) ?_)
    rw [h]
    exact mem_cons_self ..

/-- **The digits up to the first other character** are read as their number. -/
theorem number_digits {b : Nat} {ds rest : List Char} (hne : ds ≠ [])
    (hds : ∀ c ∈ ds, isDigit b c = true) (hrest : Stops b rest) : number b (ds ++ rest) = some (ofDigits b ds) := by
  unfold number
  rw [takeWhile_digits hds hrest]
  cases ds with
  | nil => exact absurd rfl hne
  | cons d ds => rfl

/-- What is written in decimal is read back. -/
theorem number_toDigits (n : Nat) : number 10 (Nat.toDigits 10 n) = some n := by
  have h : number 10 (Nat.toDigits 10 n ++ []) = _ := number_digits Nat.toDigits_ne_nil
    (fun _ hc => isDigit_of_mem_toDigits hc) stops_nil
  rw [append_nil, ofDigits_toDigits] at h
  exact h

/-- **A written number is decimal for base 0**, or zero. -/
theorem numberBase0_toDigits (n : Nat) : numberBase0 (Nat.toDigits 10 n) = some n := by
  rcases Nat.eq_zero_or_pos n with rfl | hn
  · decide
  · unfold numberBase0
    split
    next heq => exact absurd rfl (head_toDigits_ne_zero hn heq)
    next heq => exact absurd rfl (head_toDigits_ne_zero hn heq)
    next => exact number_toDigits n

variable {t : IntType}

/-- Every signed type fits into `long long`. -/
theorem bounds_signed (hs : t.signed = true) {v : Int} (h : t.min ≤ v ∧ v ≤ t.max) : -2 ^ 63 ≤ v ∧ v < 2 ^ 63 := by
  unfold IntType.min IntType.max at h
  rw [if_pos hs, if_pos hs] at h
  have hle : (2 : Int) ^ (t.bits - 1) ≤ 2 ^ 63 := by
    have := t.le
    exact_mod_cast Nat.pow_le_pow_right (by omega : 0 < 2) (by omega : t.bits - 1 ≤ 63)
  omega

/-- Every unsigned type fits into `unsigned long long`. -/
theorem bounds_unsigned (hs : ¬ t.signed = true) {v : Int} (h : t.min ≤ v ∧ v ≤ t.max) : 0 ≤ v ∧ v < 2 ^ 64 := by
  unfold IntType.min IntType.max at h
  rw [if_neg hs, if_neg hs] at h
  have hle : (2 : Int) ^ t.bits ≤ 2 ^ 64 := by
    exact_mod_cast Nat.pow_le_pow_right (by omega : 0 < 2) t.le
  omega

/-- **Signed numbers** are read back. -/
theorem stoll_show {v : Int} (h : -2 ^ 63 ≤ v ∧ v < 2 ^ 63) :
    stoll (if v < 0 then '-' :: Nat.toDigits 10 v.natAbs else Nat.toDigits 10 v.natAbs) = some v := by
  have hsign : sign ((if v < 0 then '-' :: Nat.toDigits 10 v.natAbs
      else Nat.toDigits 10 v.natAbs).dropWhile isSpace) = (decide (v < 0), Nat.toDigits 10 v.natAbs) := by
    by_cases hneg : v < 0
    · rw [if_pos hneg, decide_eq_true hneg]
      rfl
    · have hdigits := sign_toDigits v.natAbs []
      rw [append_nil] at hdigits
      rw [if_neg hneg, (word_toDigits _).dropWhile_isSpace, hdigits, decide_eq_false hneg]
  have hv : (if decide (v < 0) = true then -(v.natAbs : Int) else (v.natAbs : Int)) = v := by
    by_cases hneg : v < 0
    · rw [if_pos (decide_eq_true hneg)]
      omega
    · rw [if_neg (by simpa using hneg)]
      omega
  unfold stoll
  rw [hsign]
  dsimp only
  rw [numberBase0_toDigits, bind_some, hv, if_pos h]

/-- **Unsigned numbers** are read back. -/
theorem stoull_show {n : Nat} (h : n < 2 ^ 64) : stoull (Nat.toDigits 10 n) = some n := by
  have hsign := sign_toDigits n []
  rw [append_nil] at hsign
  unfold stoull
  rw [(word_toDigits _).dropWhile_isSpace, hsign]
  dsimp only
  rw [numberBase0_toDigits, bind_some, if_pos h, if_neg (by decide)]

/-- **An integer is read back.** -/
theorem int_round_trip (v : ScalarType.Mem (.int t)) :
    ScalarType.parseParam (.int t) (ScalarType.showParam (.int t) v) = some (ScalarType.val (.int t) v) := by
  obtain ⟨v, hv⟩ := v
  show t.toNumber (if v < 0 then '-' :: Nat.toDigits 10 v.natAbs else Nat.toDigits 10 v.natAbs) = some v
  unfold IntType.toNumber
  by_cases hs : t.signed = true
  · rw [if_pos hs, stoll_show (bounds_signed hs hv), bind_some, if_neg (by omega)]
  · have hbounds := bounds_unsigned hs hv
    rw [if_neg hs, if_neg (by omega), stoull_show (by omega), bind_some, if_neg (by omega)]
    congr 1
    show (v.natAbs : Int) = v
    omega

/-! ## Floating-point numbers -/

namespace DecimalFloat

variable {ip fp rest : List Char}

/-- The text after a fraction is neither a digit nor a point. -/
def After (rest : List Char) : Prop := Stops 10 rest ∧ rest.head? ≠ some '.'

theorem fraction_of_after (h : After rest) : fraction rest = ([], rest) := by
  unfold fraction
  split
  next cs => exact absurd rfl h.2
  next => rfl

/-- The digits before and after the point are found again. -/
theorem parts_pointed (hip : ∀ c ∈ ip, isDigit 10 c = true) (hfp : ∀ c ∈ fp, isDigit 10 c = true)
    (hrest : After rest) : (pointed ip fp ++ rest).takeWhile (isDigit 10) = ip ∧
      fraction ((pointed ip fp ++ rest).dropWhile (isDigit 10)) = (fp, rest) := by
  cases fp with
  | nil =>
    show (ip ++ rest).takeWhile _ = ip ∧ fraction ((ip ++ rest).dropWhile _) = ([], rest)
    rw [takeWhile_digits hip hrest.1, dropWhile_digits hip hrest.1]
    exact ⟨rfl, fraction_of_after hrest⟩
  | cons d ds =>
    have hpoint : Stops 10 ('.' :: (d :: ds ++ rest)) := by
      intro c hc
      cases hc
      decide
    show (ip ++ '.' :: (d :: ds) ++ rest).takeWhile _ = ip ∧
      fraction ((ip ++ '.' :: (d :: ds) ++ rest).dropWhile _) = _
    rw [append_assoc, cons_append, takeWhile_digits hip hpoint, dropWhile_digits hip hpoint]
    refine ⟨rfl, ?_⟩
    show ((d :: ds ++ rest).takeWhile _, (d :: ds ++ rest).dropWhile _) = _
    rw [takeWhile_digits hfp hrest.1, dropWhile_digits hfp hrest.1]

/-- **A decimal text is read as the number that it denotes.** -/
theorem stold_pointed (neg : Bool) (hne : ip ≠ []) (hip : ∀ c ∈ ip, isDigit 10 c = true)
    (hfp : ∀ c ∈ fp, isDigit 10 c = true) (hrest : After rest) :
    stold ((if neg then ['-'] else []) ++ (pointed ip fp ++ rest)) =
      some ((if neg then -1 else 1) * decimal ip fp * 10 ^ exponent rest) := by
  obtain ⟨d, ds, rfl⟩ := exists_cons_of_ne_nil hne
  have hd : isDigit 10 d = true := hip d (mem_cons_self ..)
  have hhead : ∃ cs, pointed (d :: ds) fp ++ rest = d :: cs := by
    unfold pointed
    split
    · exact ⟨_, rfl⟩
    · exact ⟨_, rfl⟩
  have hsign : sign (((if neg then ['-'] else []) ++ (pointed (d :: ds) fp ++ rest)).dropWhile
      isSpace) = (neg, pointed (d :: ds) fp ++ rest) := by
    obtain ⟨cs, hcs⟩ := hhead
    rw [hcs]
    cases neg with
    | true =>
      show sign (('-' :: d :: cs).dropWhile isSpace) = _
      rw [dropWhile_cons_of_neg (by decide)]
      rfl
    | false =>
      show sign ((d :: cs).dropWhile isSpace) = _
      rw [dropWhile_cons_of_neg (by rw [isSpace_of_isDigit hd]; decide), sign_digit hd]
  obtain ⟨htake, hfrac⟩ := parts_pointed hip hfp hrest
  unfold stold
  rw [hsign]
  dsimp only
  rw [htake, hfrac]
  rfl

theorem after_nil : After [] := ⟨stops_nil, by decide⟩

/-- An exponent is not taken for digits of the fraction. -/
theorem after_showExp (e : Int) : After (showExp e) := by
  refine ⟨?_, by unfold showExp; simp⟩
  intro c hc
  cases hc
  decide

/-- The exponent is read back. -/
theorem exponent_showExp (e : Int) : exponent (showExp e) = e := by
  have hds : number 10 (if (Nat.toDigits 10 e.natAbs).length < 2 then
      '0' :: Nat.toDigits 10 e.natAbs else Nat.toDigits 10 e.natAbs) = some e.natAbs := by
    split
    · -- a zero in front does not count
      have h := @number_digits 10 ('0' :: Nat.toDigits 10 e.natAbs) [] (cons_ne_nil _ _) ?_ stops_nil
      · rw [append_nil] at h
        rw [h]
        exact congrArg some (ofDigits_toDigits e.natAbs)
      · exact forall_mem_cons.mpr ⟨by decide, fun c hc => isDigit_of_mem_toDigits hc⟩
    · exact number_toDigits _
  have hsign : ∀ cs, sign ((if e < 0 then '-' else '+') :: cs) = (decide (e < 0), cs) := by
    intro cs
    by_cases hneg : e < 0
    · rw [if_pos hneg, decide_eq_true hneg]
      rfl
    · rw [if_neg hneg, decide_eq_false hneg]
      rfl
  unfold exponent showExp
  dsimp only
  rw [if_pos (by decide), hsign]
  rw [hds]
  dsimp only
  by_cases hneg : e < 0
  · rw [if_pos (decide_eq_true hneg)]
    omega
  · rw [if_neg (by simpa using hneg)]
    omega

variable (f : DecimalFloat)

/-- Six digits with the point after `k` of them; trailing zeros do not count. -/
theorem decimal_digits {n k : Nat} (hlen : (Nat.toDigits 10 n).length = 6) (hk : k ≤ 6) :
    decimal ((Nat.toDigits 10 n).take k) (trim ((Nat.toDigits 10 n).drop k)) = n * 10 ^ ((k : Int) - 6) := by
  have hzpow : (10 : ℚ) ^ ((k : Int) - 6) = 1 / 10 ^ (6 - k) := by
    have hneg : (k : Int) - 6 = -((6 - k : Nat) : Int) := by omega
    rw [hneg, zpow_neg, zpow_natCast, one_div]
  rw [decimal_trim, decimal, take_append_drop, ofDigits_toDigits, length_drop, hlen, hzpow, mul_one_div]

theorem ofDigits_zeros (k : Nat) (ds : List Char) : ofDigits 10 (replicate k '0' ++ ds) = ofDigits 10 ds := by
  induction k with
  | zero => rfl
  | succ k ih => exact ih

/-- Six digits behind `k` leading zeros. -/
theorem decimal_zeros {n k : Nat} (hlen : (Nat.toDigits 10 n).length = 6) :
    decimal ['0'] (trim (replicate k '0' ++ Nat.toDigits 10 n)) = n * 10 ^ (-(k : Int) - 6) := by
  have hzpow : (10 : ℚ) ^ (-(k : Int) - 6) = 1 / 10 ^ (k + 6) := by
    have hneg : -(k : Int) - 6 = -((k + 6 : Nat) : Int) := by omega
    rw [hneg, zpow_neg, zpow_natCast, one_div]
  have hdigits : ofDigits 10 (['0'] ++ (replicate k '0' ++ Nat.toDigits 10 n)) = n := by
    exact (ofDigits_zeros k _).trans (ofDigits_toDigits n)
  rw [decimal_trim, decimal, hdigits, length_append, length_replicate, hlen, hzpow, mul_one_div]

/-- **The form of the text** of a floating-point number: an integral part, a fraction, and an exponent or
    nothing. -/
theorem text_form : ∃ ip fp rest, ip ≠ [] ∧ (∀ c ∈ ip, isDigit 10 c = true) ∧
    (∀ c ∈ fp, isDigit 10 c = true) ∧ After rest ∧ (∀ c ∈ rest, isSpace c = false) ∧
    f.text = (if f.neg then ['-'] else []) ++ (pointed ip fp ++ rest) ∧
    (decimal ip fp * 10 ^ exponent rest : ℚ) = f.mant * 10 ^ (f.exp - 5) := by
  have hdigit : ∀ {c}, c ∈ Nat.toDigits 10 f.mant → isDigit 10 c = true :=
    fun hc => isDigit_of_mem_toDigits hc
  have hnone : ∀ c ∈ ([] : List Char), isSpace c = false := by
    intro c hc
    cases hc
  unfold text
  dsimp only
  by_cases hzero : f.mant = 0
  · refine ⟨['0'], [], [], cons_ne_nil _ _, ?_, ?_, after_nil, hnone, ?_, ?_⟩
    · intro c hc
      cases mem_singleton.mp hc
      decide
    · intro c hc
      cases hc
    · rw [if_pos hzero]
      rfl
    · have hdec : decimal ['0'] [] = 0 := by
        show ((ofDigits 10 ['0'] : Nat) : ℚ) / 10 ^ 0 = 0
        rw [show ofDigits 10 ['0'] = 0 from rfl, Nat.cast_zero, zero_div]
      rw [hzero, hdec, zero_mul, Nat.cast_zero, zero_mul]
  have hok : 10 ^ 5 ≤ f.mant ∧ f.mant < 10 ^ 6 := f.ok.resolve_left fun h => hzero h.1
  have hlen := length_toDigits hok.1 hok.2
  have htake : ∀ k, 0 < k → (Nat.toDigits 10 f.mant).take k ≠ [] := by
    intro k hk heq
    have := congrArg length heq
    rw [length_take, length_nil] at this
    omega
  rw [if_neg hzero]
  by_cases hsci : f.exp < -4 ∨ 6 ≤ f.exp
  · -- scientific notation
    rw [if_pos hsci]
    refine ⟨_, _, showExp f.exp, htake 1 (by omega), fun c hc => hdigit (mem_of_mem_take hc),
      fun c hc => hdigit (mem_of_mem_drop (mem_of_mem_trim hc)), after_showExp _, ?_, rfl, ?_⟩
    · have hword : Word (showExp f.exp) := by
        refine Word.cons (by decide) (Word.cons ?_ ?_)
        · split <;> decide
        · split
          · exact (word_toDigits _).cons (by decide)
          · exact word_toDigits _
      exact hword.2
    · rw [decimal_digits hlen (by omega), exponent_showExp, mul_assoc, ← zpow_add₀ (by norm_num)]
      congr 2
      push_cast
      omega
  · rw [if_neg hsci]
    by_cases hneg : f.exp < 0
    · -- zeros after the point
      rw [if_pos hneg]
      refine ⟨['0'], _, [], cons_ne_nil _ _, ?_, ?_, after_nil, hnone,
        by rw [append_nil], ?_⟩
      · intro c hc
        cases mem_singleton.mp hc
        decide
      · intro c hc
        rcases mem_append.mp (mem_of_mem_trim hc) with hc | hc
        · rw [(mem_replicate.mp hc).2]
          decide
        · exact hdigit hc
      · rw [decimal_zeros hlen]
        show _ * (10 : ℚ) ^ (0 : Int) = _
        rw [zpow_zero, mul_one]
        congr 2
        omega
    · rw [if_neg hneg]
      refine ⟨_, _, [], htake (f.exp.toNat + 1) (by omega), fun c hc => hdigit (mem_of_mem_take hc),
        fun c hc => hdigit (mem_of_mem_drop (mem_of_mem_trim hc)), after_nil, hnone,
        by rw [append_nil], ?_⟩
      rw [decimal_digits hlen (by omega)]
      show _ * (10 : ℚ) ^ (0 : Int) = _
      rw [zpow_zero, mul_one]
      congr 2
      push_cast
      omega

/-- **The text of a floating-point value denotes the value.** -/
theorem stold_text : stold f.text = some f.value := by
  obtain ⟨ip, fp, rest, hne, hip, hfp, hrest, -, htext, hval⟩ := f.text_form
  rw [htext, stold_pointed f.neg hne hip hfp hrest, mul_assoc, hval, ← mul_assoc]
  rfl

/-- The text of a floating-point number has no space in it. -/
theorem word_text : Word f.text := by
  obtain ⟨ip, fp, rest, hne, hip, hfp, -, hrest, htext, -⟩ := f.text_form
  have hnum : Word (pointed ip fp ++ rest) := by
    have hpointed : Word (pointed ip fp) := by
      cases fp with
      | nil => exact word_digits hne hip
      | cons d ds =>
        exact (word_digits hne hip).append ((word_digits (cons_ne_nil _ _) hfp).cons (by decide))
    exact ⟨append_ne_nil_of_left_ne_nil hpointed.1 _, forall_mem_append.mpr ⟨hpointed.2, hrest⟩⟩
  rw [htext]
  cases f.neg with
  | true => exact hnum.cons (by decide)
  | false => exact hnum

end DecimalFloat

/-! ## All types -/

namespace ScalarType

/-- What `to_number` takes: of floating-point numbers, only the positive normal ones. -/
def InRange : (T : ScalarType) → T.Mem → Prop
  | .int _, _ => True
  | .bool, _ => True
  | .float t, f => t.min ≤ f.1.value

/-- **No value is written with a space in it**, so the array is cut where it was joined. -/
theorem word_showParam (T : ScalarType) (v : T.Mem) : Word (T.showParam v) := by
  cases T with
  | int t =>
    show Word (if v.1 < 0 then _ else _)
    split
    · exact (word_toDigits _).cons (by decide)
    · exact word_toDigits _
  | bool =>
    cases v with
    | true | false => exact ⟨by decide, by decide⟩
  | float t => exact v.1.word_text

/-- **A value in range is read back, any other is refused.** -/
theorem parseParam_showParam (T : ScalarType) (v : T.Mem) :
    (T.InRange v → T.parseParam (T.showParam v) = some (T.val v)) ∧
      (¬ T.InRange v → T.parseParam (T.showParam v) = none) := by
  cases T with
  | int t => exact ⟨fun _ => int_round_trip v, fun h => absurd trivial h⟩
  | bool =>
    refine ⟨fun _ => ?_, fun h => absurd trivial h⟩
    cases v with
    | true => rfl
    | false => rfl
  | float t =>
    obtain ⟨f, -, hmax⟩ := v
    show (t.min ≤ f.value → t.toNumber f.text = some f.value) ∧ (¬ t.min ≤ f.value → t.toNumber f.text = none)
    unfold FloatType.toNumber
    rw [f.stold_text, bind_some]
    constructor
    · intro hmin
      rw [if_neg]
      rintro (h | h)
      · exact absurd hmin (not_le.mpr h)
      · exact absurd hmax (not_le.mpr h)
    · intro hmin
      rw [if_pos (Or.inl (not_le.mp hmin))]

end ScalarType

end NvpSim.Sim
