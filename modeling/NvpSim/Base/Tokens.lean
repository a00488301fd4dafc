/-
  What `tokenize` (`base/str.cc`) makes of a text: with the empty fields kept, the fields join back to the text;
  with the empty fields left out, they are the maximal runs between separators.

  The second form is what the checkpoints use to cut an array at its blanks, so the lemmas are about one run and
  the text after it (`runs_rest`), as the loop of the source goes.
-/
import NvpSim.Base.Str
import Mathlib.Data.List.TakeWhile

namespace NvpSim.Base

open List

variable {token : Char}

/-- The fields are the maximal non-empty separator-free parts of a text, in order. -/
inductive Runs (token : Char) : List Char → List (List Char) → Prop
  | nil : Runs token [] []
  | sep {s fs} : Runs token s fs → Runs token (token :: s) fs
  | field {f s fs} : f ≠ [] → token ∉ f → (∀ c ∈ s.head?, c = token) → Runs token s fs →
      Runs token (f ++ s) (f :: fs)

theorem Runs.of_dropWhile {s : List Char} {fs : List (List Char)}
    (h : Runs token (s.dropWhile (· == token)) fs) : Runs token s fs := by
  induction s with
  | nil => exact h
  | cons c s ih =>
    by_cases hc : c = token
    · subst hc
      exact .sep (ih (by simpa using h))
    · rwa [dropWhile_cons_of_neg (by simpa using hc)] at h

/-- The character that ends a field is the separator. -/
theorem eq_append_of_dropWhile {s rest : List Char} {c : Char}
    (h : s.dropWhile (· != token) = c :: rest) : s = s.takeWhile (· != token) ++ token :: rest := by
  have hc := head?_dropWhile_not (· != token) s
  simp only [h, head?_cons, bne_eq_false_iff_eq] at hc
  conv_lhs => rw [← takeWhile_append_dropWhile (p := (· != token)) (l := s), h, hc]

/-- Without skipping there is at least one field. -/
theorem tokenizeLoop_ne_nil (s : List Char) : tokenizeLoop token false s ≠ [] := by
  rw [tokenizeLoop]
  split <;> exact cons_ne_nil _ _

/-- The fields, joined by the token, are the text. -/
theorem intercalate_tokenizeLoop (s : List Char) :
    [token].intercalate (tokenizeLoop token false s) = s := by
  fun_induction tokenizeLoop token false s with
  | case1 s h => exact intercalate_singleton
  | case2 s c rest h _ _ ih =>
    rw [if_neg Bool.false_ne_true, intercalate_cons_of_ne_nil (tokenizeLoop_ne_nil rest), ih,
      append_assoc]
    exact (eq_append_of_dropWhile h).symm

theorem runs_rest {s : List Char} {fs : List (List Char)}
    (h : s.dropWhile (· == token) ≠ [] → Runs token (s.dropWhile (· == token)) fs) :
    Runs token s (if (s.dropWhile (· == token)).isEmpty then [] else fs) := by
  apply Runs.of_dropWhile
  split_ifs with he
  · rw [isEmpty_iff.mp he]
    exact .nil
  · exact h (by simpa using he)

/-- With skipping the fields are the runs between tokens. -/
theorem runs_tokenizeLoop (s : List Char) (hs : s ≠ []) (hhead : s.head? ≠ some token) :
    Runs token s (tokenizeLoop token true s) := by
  fun_induction tokenizeLoop token true s with
  | case1 s h =>
    have hnot : token ∉ s := fun hm => by simpa using dropWhile_eq_nil_iff.mp h token hm
    simpa using Runs.field hs hnot (by simp) .nil
  | case2 s c rest h _ ih _ =>
    have heq := eq_append_of_dropWhile h
    have hne : s.takeWhile (· != token) ≠ [] := fun hf => hhead (by rw [heq, hf]; rfl)
    have hnot : token ∉ s.takeWhile (· != token) := fun hm => by simpa using mem_takeWhile_imp hm
    have hrun := Runs.field hne hnot (by simp) (.sep (runs_rest fun hd => ih hd (head?_dropWhile_ne token rest)))
    rwa [← heq] at hrun

/-- **What `tokenize` returns**, in both modes. -/
theorem tokenize_fields (s : List Char) (token : Char) :
    [token].intercalate (tokenize s token false) = s ∧ Runs token s (tokenize s token true) := by
  rcases eq_or_ne s [] with rfl | hs
  · exact ⟨rfl, .nil⟩
  have hemp : s.isEmpty = false := by simpa using hs
  constructor
  · simpa [tokenize, hemp] using intercalate_tokenizeLoop s
  · by_cases hhead : s.head? = some token
    · simpa [tokenize, hemp, hhead] using
        runs_rest fun hd => runs_tokenizeLoop (s.dropWhile (· == token)) hd (head?_dropWhile_ne token s)
    · simpa [tokenize, hemp, hhead] using runs_tokenizeLoop s hs hhead

end NvpSim.Base
