/-
  Hysteresis: `SimpleEnergySM` with two levels and `SM_Retention` with three.

  For each machine there is one lemma that says what `update` does (`update_cases`), and everything else follows
  from it by the rules for machines in `Lib.Machine`.

  The energies are arbitrary, so the energy may jump over a level in one update.
-/
import NvpSim.Energy.Retention
import NvpSim.Lib.Machine

namespace NvpSim.Energy

open NvpSim.Lib

/-- Each message is one of the two, and none is sent twice in a row. -/
def Alternates (off on : EnergyMsg) (msgs : List EnergyMsg) : Prop :=
  (∀ m ∈ msgs, m = off ∨ m = on) ∧ msgs.IsChain (· ≠ ·)

/-! ## Two levels -/

namespace SimpleEnergySM

/-- The message that tells a state. -/
def State.msg : State → EnergyMsg
  | powerOff => ⟨MsgType.powerOff.toInt, 0⟩
  | powerOn => ⟨MsgType.powerOn.toInt, 0⟩

/-- The power is lost. -/
def Lost (sm sm' : SimpleEnergySM) : Prop := sm.state = .powerOn ∧ sm'.state = .powerOff

instance : DecidableRel Lost := fun _ _ => inferInstanceAs (Decidable (_ ∧ _))

section

variable (sm : SimpleEnergySM) (e : Rat)

include sm e

/-- **What an update does.** -/
theorem update_cases : (sm.state = .powerOn ∧ e ≤ sm.thres1ToOff ∧ sm.update e =
      ({ sm with state := .powerOff, outageTimes := sm.outageTimes + 1 }, [State.powerOff.msg])) ∨
    (sm.state = .powerOff ∧ sm.thresOffTo1 ≤ e ∧ sm.update e = ({ sm with state := .powerOn }, [State.powerOn.msg])) ∨
    ((sm.state = .powerOn → sm.thres1ToOff < e) ∧ (sm.state = .powerOff → e < sm.thresOffTo1) ∧
      sm.update e = (sm, [])) := by
  unfold update
  split
  · rename_i h
    exact Or.inl ⟨h.1, h.2, rfl⟩
  · rename_i hfail
    split
    · rename_i h
      exact Or.inr (Or.inl ⟨h.1, h.2, rfl⟩)
    · rename_i hrec
      refine Or.inr (Or.inr ⟨?_, ?_, rfl⟩)
      · intro hon
        exact not_le.mp fun hle => hfail ⟨hon, hle⟩
      · intro hoff
        exact not_le.mp fun hge => hrec ⟨hoff, hge⟩

theorem update_thresholds :
    (sm.update e).1.thres1ToOff = sm.thres1ToOff ∧ (sm.update e).1.thresOffTo1 = sm.thresOffTo1 := by
  rcases update_cases sm e with ⟨-, -, h⟩ | ⟨-, -, h⟩ | ⟨-, -, h⟩ <;> rw [h] <;> exact ⟨rfl, rfl⟩

theorem update_msgs : ((sm.update e).2 = [] ∧ (sm.update e).1.state.msg = sm.state.msg) ∨
      ∃ m, (sm.update e).2 = [m] ∧ sm.state.msg ≠ m ∧ (sm.update e).1.state.msg = m := by
  rcases update_cases sm e with ⟨hst, -, h⟩ | ⟨hst, -, h⟩ | ⟨-, -, h⟩
  · refine Or.inr ⟨State.powerOff.msg, ?_⟩
    rw [h, hst]
    exact ⟨rfl, by decide, rfl⟩
  · refine Or.inr ⟨State.powerOn.msg, ?_⟩
    rw [h, hst]
    exact ⟨rfl, by decide, rfl⟩
  · rw [h]
    exact Or.inl ⟨rfl, rfl⟩

theorem mem_update_msgs : ∀ m ∈ (sm.update e).2, m = State.powerOff.msg ∨ m = State.powerOn.msg := by
  rcases update_cases sm e with ⟨-, -, h⟩ | ⟨-, -, h⟩ | ⟨-, -, h⟩ <;> rw [h]
  · intro m hm
    exact Or.inl (List.mem_singleton.mp hm)
  · intro m hm
    exact Or.inr (List.mem_singleton.mp hm)
  · intro m hm
    cases hm

theorem update_outageTimes :
    (sm.update e).1.outageTimes = sm.outageTimes + if Lost sm (sm.update e).1 then 1 else 0 := by
  rcases update_cases sm e with ⟨hst, -, h⟩ | ⟨hst, -, h⟩ | ⟨-, -, h⟩ <;> rw [h]
  · rw [if_pos ⟨hst, rfl⟩]
  · rw [if_neg fun hlost => by cases hlost.2]
    rfl
  · rw [if_neg fun hlost => by cases hlost.1.symm.trans hlost.2]
    rfl

end

theorem update_state (sm : SimpleEnergySM) (hlt : sm.thres1ToOff < sm.thresOffTo1) (e : Rat) :
    (e < sm.thres1ToOff → (sm.update e).1.state = .powerOff) ∧
      (sm.thresOffTo1 < e → (sm.update e).1.state = .powerOn) ∧
      (sm.thres1ToOff < e → e < sm.thresOffTo1 → (sm.update e).1.state = sm.state) := by
  have hcases : sm.state = .powerOff ∨ sm.state = .powerOn := by cases sm.state <;> simp
  rcases update_cases sm e with ⟨hst, hle, h⟩ | ⟨hst, hge, h⟩ | ⟨hon, hoff, h⟩ <;> rw [h]
  · exact ⟨fun _ => rfl, fun hgt => absurd (hgt.trans_le hle) (lt_asymm hlt),
      fun hgt _ => absurd hgt (not_lt.mpr hle)⟩
  · exact ⟨fun hlow => absurd (hge.trans_lt hlow) (lt_asymm hlt), fun _ => rfl,
      fun _ hlow => absurd hlow (not_lt.mpr hge)⟩
  · refine ⟨?_, ?_, fun _ _ => rfl⟩
    · intro hlow
      exact hcases.resolve_right fun hst => lt_asymm hlow (hon hst)
    · intro hhigh
      exact hcases.resolve_left fun hst => lt_asymm hhigh (hoff hst)

/-- The machine after `init` and the updates `es`. -/
def after (thres1ToOff thresOffTo1 : Rat) (es : List Rat) : SimpleEnergySM :=
  Machine.state update (new thres1ToOff thresOffTo1).init.1 es

/-- Everything that has been sent then. -/
def sent (thres1ToOff thresOffTo1 : Rat) (es : List Rat) : List EnergyMsg :=
  (new thres1ToOff thresOffTo1).init.2 ++ Machine.output update (new thres1ToOff thresOffTo1).init.1 es

theorem after_thresholds (a b : Rat) (es : List Rat) :
    (after a b es).thres1ToOff = a ∧ (after a b es).thresOffTo1 = b := by
  refine Machine.state_inv (P := fun sm : SimpleEnergySM => sm.thres1ToOff = a ∧ sm.thresOffTo1 = b) ?_ ⟨rfl, rfl⟩ es
  intro sm e h
  rw [(update_thresholds sm e).1, (update_thresholds sm e).2]
  exact h

theorem alternates_sent (a b : Rat) (es : List Rat) :
    Alternates State.powerOff.msg State.powerOn.msg (sent a b es) := by
  constructor
  · intro m hm
    rcases List.mem_append.mp hm with hm | hm
    · exact Or.inl (List.mem_singleton.mp hm)
    · exact Machine.output_forall mem_update_msgs _ es m hm
  · exact @Machine.isChain_output _ _ _ _ (fun sm => sm.state.msg) update_msgs (new a b).init.1 es

/-- **`SimpleEnergySM` is a hysteresis.**  The messages alternate; below the lower threshold the machine is off, above
    the upper one it is on, and in between it stays what it was; and the counter counts the outages. -/
theorem simple_hysteresis {thres1ToOff thresOffTo1 : Rat} (hlt : thres1ToOff < thresOffTo1) (es : List Rat) :
    Alternates State.powerOff.msg State.powerOn.msg (sent thres1ToOff thresOffTo1 es) ∧
      (∀ e, (e < thres1ToOff → (after thres1ToOff thresOffTo1 (es ++ [e])).state = .powerOff) ∧
        (thresOffTo1 < e → (after thres1ToOff thresOffTo1 (es ++ [e])).state = .powerOn) ∧
        (thres1ToOff < e → e < thresOffTo1 → (after thres1ToOff thresOffTo1 (es ++ [e])).state =
            (after thres1ToOff thresOffTo1 es).state)) ∧ (after thres1ToOff thresOffTo1 es).outageTimes =
        Machine.count update Lost (new thres1ToOff thresOffTo1).init.1 es := by
  refine ⟨alternates_sent _ _ es, ?_, ?_⟩
  · intro e
    obtain ⟨hlow, hhigh⟩ := after_thresholds thres1ToOff thresOffTo1 es
    have hstate := update_state (after thres1ToOff thresOffTo1 es) (by rw [hlow, hhigh]; exact hlt) e
    rw [hlow, hhigh] at hstate
    rw [after, Machine.state_snoc]
    exact hstate
  · have hcount := Machine.count_eq update_outageTimes (new thres1ToOff thresOffTo1).init.1 es
    rw [show (new thres1ToOff thresOffTo1).init.1.outageTimes = 0 from rfl, Nat.zero_add] at hcount
    exact hcount

/-- With the thresholds 2 and 5, through 6, 3 and 1: one outage. -/
theorem simple_hysteresis_outage : (2 : Rat) < 5 ∧ (after 2 5 [6, 3, 1]).outageTimes = 1 ∧
      Alternates State.powerOff.msg State.powerOn.msg (sent 2 5 [6, 3, 1]) :=
  have hlt : (2 : Rat) < 5 := by decide +kernel
  ⟨hlt, by decide +kernel, (simple_hysteresis hlt [6, 3, 1]).1⟩

end SimpleEnergySM

/-! ## Three levels -/

namespace SMRetention

/-- The message that tells a state. -/
def State.msg : State → EnergyMsg
  | powerOff => ⟨MsgType.powerOff.toInt, 0⟩
  | powerRetention => ⟨MsgType.powerRet.toInt, 0⟩
  | powerOn => ⟨MsgType.powerOn.toInt, 0⟩

/-- The power is lost. -/
def Lost (sm sm' : SMRetention) : Prop := sm.state ≠ .powerOff ∧ sm'.state = .powerOff

instance : DecidableRel Lost := fun _ _ => inferInstanceAs (Decidable (_ ∧ _))

section

variable (sm : SMRetention) (e : Rat)

include sm e

/-- **What an update does.** -/
theorem update_cases : (sm.state ≠ .powerOff ∧ e ≤ sm.thresRetToOff ∧ sm.update e =
      ({ sm with state := .powerOff, outageTimes := sm.outageTimes + 1 }, [State.powerOff.msg])) ∨
    (sm.state = .powerOn ∧ sm.thresRetToOff < e ∧ e ≤ sm.thres1ToRet ∧
      sm.update e = ({ sm with state := .powerRetention }, [State.powerRetention.msg])) ∨
    (sm.state ≠ .powerOn ∧ sm.thresRetTo1 ≤ e ∧ (sm.state = .powerRetention → sm.thresRetToOff < e) ∧
      sm.update e = ({ sm with state := .powerOn }, [State.powerOn.msg])) ∨
    ((sm.state ≠ .powerOff → sm.thresRetToOff < e) ∧ (sm.state = .powerOn → sm.thres1ToRet < e) ∧
      (sm.state ≠ .powerOn → e < sm.thresRetTo1) ∧ sm.update e = (sm, [])) := by
  have hon : (sm.state = .powerOn ∨ sm.state = .powerRetention) ↔ sm.state ≠ .powerOff := by
    cases sm.state <;> simp
  have hoff : (sm.state = .powerOff ∨ sm.state = .powerRetention) ↔ sm.state ≠ .powerOn := by
    cases sm.state <;> simp
  unfold update
  split
  · rename_i h
    exact Or.inl ⟨hon.mp h.1, h.2, rfl⟩
  · rename_i hfail
    have hgt : sm.state ≠ .powerOff → sm.thresRetToOff < e :=
      fun hst => not_le.mp fun hle => hfail ⟨hon.mpr hst, hle⟩
    split
    · rename_i h
      exact Or.inr (Or.inl ⟨h.1, hgt (by rw [h.1]; decide), h.2, rfl⟩)
    · rename_i hret
      split
      · rename_i h
        exact Or.inr (Or.inr (Or.inl ⟨hoff.mp h.1, h.2, fun hst => hgt (by rw [hst]; decide), rfl⟩))
      · rename_i hrec
        exact Or.inr (Or.inr (Or.inr ⟨hgt, fun hst => not_le.mp fun hle => hret ⟨hst, hle⟩,
          fun hst => not_le.mp fun hge => hrec ⟨hoff.mpr hst, hge⟩, rfl⟩))

theorem update_thresholds :
    (sm.update e).1.thresRetToOff = sm.thresRetToOff ∧ (sm.update e).1.thres1ToRet = sm.thres1ToRet ∧
      (sm.update e).1.thresRetTo1 = sm.thresRetTo1 := by
  rcases update_cases sm e with ⟨-, -, h⟩ | ⟨-, -, -, h⟩ | ⟨-, -, -, h⟩ | ⟨-, -, -, h⟩ <;> rw [h] <;>
    exact ⟨rfl, rfl, rfl⟩

theorem update_msgs : (sm.update e).2 =
      if (sm.update e).1.state = sm.state then [] else [(sm.update e).1.state.msg] := by
  rcases update_cases sm e with ⟨hst, -, h⟩ | ⟨hst, -, -, h⟩ | ⟨hst, -, -, h⟩ | ⟨-, -, -, h⟩ <;> rw [h]
  · exact (if_neg (Ne.symm hst)).symm
  · rw [hst]
    rfl
  · exact (if_neg (Ne.symm hst)).symm
  · exact (if_pos rfl).symm

theorem update_outageTimes :
    (sm.update e).1.outageTimes = sm.outageTimes + if Lost sm (sm.update e).1 then 1 else 0 := by
  rcases update_cases sm e with ⟨hst, -, h⟩ | ⟨hst, -, -, h⟩ | ⟨hst, -, -, h⟩ | ⟨-, -, -, h⟩ <;> rw [h]
  · rw [if_pos ⟨hst, rfl⟩]
  · rw [if_neg fun hlost => by cases hlost.2]
    rfl
  · rw [if_neg fun hlost => by cases hlost.2]
    rfl
  · rw [if_neg fun hlost => hlost.1 hlost.2]
    rfl

theorem update_retention (h : (sm.update e).1.state = .powerRetention) :
    sm.state = .powerRetention ∨ sm.state = .powerOn := by
  rcases update_cases sm e with ⟨-, -, heq⟩ | ⟨hst, -, -, heq⟩ | ⟨-, -, -, heq⟩ | ⟨-, -, -, heq⟩ <;>
    rw [heq] at h
  · cases h
  · exact Or.inr hst
  · cases h
  · exact Or.inl h

end

theorem update_state (sm : SMRetention) (hlow : sm.thresRetToOff < sm.thres1ToRet)
    (hhigh : sm.thres1ToRet < sm.thresRetTo1) (e : Rat) : (e ≤ sm.thresRetToOff → (sm.update e).1.state = .powerOff) ∧
      (e ≤ sm.thres1ToRet → (sm.update e).1.state ≠ .powerOn) ∧
      (sm.thresRetTo1 ≤ e → (sm.update e).1.state = .powerOn) := by
  rcases update_cases sm e with
    ⟨hst, hle, h⟩ | ⟨hst, hgt, hle, h⟩ | ⟨hst, hge, -, h⟩ | ⟨hoff, hret, hon, h⟩ <;> rw [h]
  · exact ⟨fun _ => rfl, nofun, fun hge => absurd (hge.trans hle) (not_le.mpr (hlow.trans hhigh))⟩
  · exact ⟨fun hle' => absurd hgt (not_lt.mpr hle'), nofun,
      fun hge => absurd (hge.trans hle) (not_le.mpr hhigh)⟩
  · exact ⟨fun hle => absurd (hge.trans hle) (not_le.mpr (hlow.trans hhigh)),
      fun hle => absurd (hge.trans hle) (not_le.mpr hhigh), fun _ => rfl⟩
  · refine ⟨?_, ?_, ?_⟩
    · intro hle
      by_contra hst
      exact absurd (hoff hst) (not_lt.mpr hle)
    · intro hle hst
      exact absurd (hret hst) (not_lt.mpr hle)
    · intro hge
      by_contra hst
      exact absurd (hon hst) (not_lt.mpr hge)

/-- The machine after `init` and the updates `es`. -/
def after (thresRetToOff thres1ToRet thresRetTo1 : Rat) (es : List Rat) : SMRetention :=
  Machine.state update (new thresRetToOff thres1ToRet thresRetTo1).init.1 es

theorem after_thresholds (a b c : Rat) (es : List Rat) :
    (after a b c es).thresRetToOff = a ∧ (after a b c es).thres1ToRet = b ∧ (after a b c es).thresRetTo1 = c := by
  refine Machine.state_inv (P := fun sm : SMRetention =>
      sm.thresRetToOff = a ∧ sm.thres1ToRet = b ∧ sm.thresRetTo1 = c) ?_
    ⟨rfl, rfl, rfl⟩ es
  intro sm e h
  obtain ⟨h1, h2, h3⟩ := update_thresholds sm e
  rw [h1, h2, h3]
  exact h

/-- **`SM_Retention` is a hysteresis with three levels**, for all energies, also if they jump over a level.  Here `a`,
    `b` and `c` are the thresholds `thres_ret_to_off`, `thres_1_to_ret` and `thres_ret_to_1`. -/
theorem retention_hysteresis {a b c : Rat} (hlow : a < b) (hhigh : b < c) (es : List Rat) (e : Rat) :
    (e ≤ a → (after a b c (es ++ [e])).state = .powerOff) ∧ (e ≤ b → (after a b c (es ++ [e])).state ≠ .powerOn) ∧
      (c ≤ e → (after a b c (es ++ [e])).state = .powerOn) ∧ ((after a b c (es ++ [e])).state = .powerRetention →
        (after a b c es).state = .powerRetention ∨ (after a b c es).state = .powerOn) ∧
      ((after a b c es).update e).2 = (if (after a b c (es ++ [e])).state = (after a b c es).state then []
          else [(after a b c (es ++ [e])).state.msg]) ∧
      (after a b c es).outageTimes = Machine.count update Lost (new a b c).init.1 es := by
  have hstep : after a b c (es ++ [e]) = ((after a b c es).update e).1 := Machine.state_snoc _ es e
  obtain ⟨h1, h2, h3⟩ := after_thresholds a b c es
  have hstate := update_state (after a b c es) (by rw [h1, h2]; exact hlow) (by rw [h2, h3]; exact hhigh) e
  rw [h1, h2, h3] at hstate
  rw [hstep]
  refine ⟨hstate.1, hstate.2.1, hstate.2.2, update_retention _ e, update_msgs _ e, ?_⟩
  have hcount := Machine.count_eq update_outageTimes (new a b c).init.1 es
  rw [show (new a b c).init.1.outageTimes = 0 from rfl, Nat.zero_add] at hcount
  exact hcount

/-- With the thresholds 1, 2 and 5: from on at 6 the energy falls to 1 in one step, and the machine is off. -/
theorem retention_hysteresis_jump : (1 : Rat) < 2 ∧ (2 : Rat) < 5 ∧ (after 1 2 5 [6]).state = .powerOn ∧
      (after 1 2 5 ([6] ++ [1])).state = .powerOff :=
  have hlow : (1 : Rat) < 2 := by decide +kernel
  have hhigh : (2 : Rat) < 5 := by decide +kernel
  ⟨hlow, hhigh, by decide +kernel, (retention_hysteresis hlow hhigh [6] 1).1 le_rfl⟩

end SMRetention

end NvpSim.Energy
