/-
  `SM_TwoThres` (`engy/SM_TwoThres.{hh,cc}`): a copy of `SimpleEnergySM` in which the branch for a power failure
  was copied from the branch for a recovery.  It says that the machine goes to STATE_POWEROFF, and then sets
  STATE_POWERON and sends MSG_POWERON.

  So the power is on from the first sample that reaches `thres_off_to_1` (`state_eq_powerOn`), whatever comes after,
  and the machine cuts power exactly in the runs in which there is nothing to cut (`cutsPower_iff`).
-/
import NvpSim.Energy.Hysteresis

namespace NvpSim.Energy

open NvpSim.Lib List

namespace SMTwoThres

inductive State where
  | powerOff
  | powerOn
  deriving DecidableEq, Repr

inductive MsgType where
  | consumeEnergy
  | powerOff
  | powerOn
  deriving DecidableEq, Repr

/-- The enumerator values of `SM_TwoThres::MsgType`. -/
def MsgType.toInt : MsgType → Int
  | consumeEnergy => 0
  | powerOff => 1
  | powerOn => 2

/-- The message that tells a state. -/
def State.msg : State → EnergyMsg
  | powerOff => ⟨MsgType.powerOff.toInt, 0⟩
  | powerOn => ⟨MsgType.powerOn.toInt, 0⟩

end SMTwoThres

open SMTwoThres in
structure SMTwoThres where
  state : State
  thres1ToOff : Rat
  thresOffTo1 : Rat

namespace SMTwoThres

/-- `SM_TwoThres::SM_TwoThres(p)`. -/
def new (thres1ToOff thresOffTo1 : Rat) : SMTwoThres where
  state := .powerOff
  thres1ToOff := thres1ToOff
  thresOffTo1 := thresOffTo1

/-- `SM_TwoThres::init()`: the machine, and what it broadcasts. -/
def init (sm : SMTwoThres) : SMTwoThres × List EnergyMsg :=
  ({ sm with state := .powerOff }, [⟨MsgType.powerOff.toInt, 0⟩])

def update (sm : SMTwoThres) (energy : Rat) : SMTwoThres × List EnergyMsg :=
  if sm.state = .powerOff ∧ energy ≥ sm.thresOffTo1 then
    ({ sm with state := .powerOn }, [⟨MsgType.powerOn.toInt, 0⟩])
  else if sm.state = .powerOn ∧ energy ≤ sm.thres1ToOff then
    -- the source announces STATE_POWERON->STATE_POWEROFF here, and sets and sends POWERON
    ({ sm with state := .powerOn }, [⟨MsgType.powerOn.toInt, 0⟩])
  else (sm, [])

instance : BaseEnergySM SMTwoThres where
  -- the constructor assigns `energy_consume_lower_bound = thres_1_to_off`, nothing changes it
  energyConsumeLowerBound := SMTwoThres.thres1ToOff
  update := SMTwoThres.update
  poweronDirtyPatch := fun _ => false

/-! ## What a run does -/

/-- The machine after `init` and the updates `es`. -/
def after (thres1ToOff thresOffTo1 : Rat) (es : List Rat) : SMTwoThres :=
  Machine.state update (new thres1ToOff thresOffTo1).init.1 es

/-- Everything that has been sent then. -/
def sent (thres1ToOff thresOffTo1 : Rat) (es : List Rat) : List EnergyMsg :=
  (new thres1ToOff thresOffTo1).init.2 ++ Machine.output update (new thres1ToOff thresOffTo1).init.1 es

theorem after_snoc (a b : Rat) (es : List Rat) (e : Rat) :
    after a b (es ++ [e]) = ((after a b es).update e).1 := Machine.state_snoc _ es e

theorem sent_snoc (a b : Rat) (es : List Rat) (e : Rat) :
    sent a b (es ++ [e]) = sent a b es ++ ((after a b es).update e).2 := by
  rw [sent, Machine.output_snoc]
  rfl

theorem update_of_on {sm : SMTwoThres} (h : sm.state = .powerOn) (e : Rat) :
    sm.update e = (sm, if e ≤ sm.thres1ToOff then [State.powerOn.msg] else []) := by
  cases sm with
  | mk st a b =>
    cases h
    show (if (State.powerOn = .powerOff ∧ e ≥ b) then _ else _) = _
    rw [if_neg fun hoff => by cases hoff.1]
    by_cases hle : e ≤ a
    · rw [if_pos ⟨rfl, hle⟩, if_pos hle]
      rfl
    · rw [if_neg fun hon => hle hon.2, if_neg hle]

theorem update_of_off {sm : SMTwoThres} (h : sm.state = .powerOff) (e : Rat) :
    sm.update e = if sm.thresOffTo1 ≤ e then ({ sm with state := .powerOn }, [State.powerOn.msg])
      else (sm, []) := by
  unfold update
  by_cases hge : sm.thresOffTo1 ≤ e
  · rw [if_pos ⟨h, hge⟩, if_pos hge]
    rfl
  · rw [if_neg fun hoff => hge hoff.2, if_neg fun hon => (by cases h.symm.trans hon.1), if_neg hge]

theorem state_cases (sm : SMTwoThres) : sm.state = .powerOff ∨ sm.state = .powerOn := by
  cases sm.state
  · exact Or.inl rfl
  · exact Or.inr rfl

theorem after_thresholds (a b : Rat) (es : List Rat) :
    (after a b es).thres1ToOff = a ∧ (after a b es).thresOffTo1 = b := by
  refine Machine.state_inv (P := fun sm : SMTwoThres => sm.thres1ToOff = a ∧ sm.thresOffTo1 = b) ?_ ⟨rfl, rfl⟩ es
  intro sm e h
  rcases state_cases sm with hoff | hon
  · rw [update_of_off hoff]
    split <;> exact h
  · rw [update_of_on hon]
    exact h

/-- **The power is on exactly if it has ever been switched on.** -/
theorem state_eq_powerOn (a b : Rat) (es : List Rat) : (after a b es).state = .powerOn ↔ ∃ x ∈ es, b ≤ x := by
  induction es using List.reverseRecOn with
  | nil =>
    constructor
    · intro h
      cases h
    · rintro ⟨x, hx, -⟩
      cases hx
  | append_singleton es e ih =>
    have hsplit : (∃ x ∈ es ++ [e], b ≤ x) ↔ (∃ x ∈ es, b ≤ x) ∨ b ≤ e := by
      simp only [mem_append, mem_singleton, or_and_right, exists_or, exists_eq_left]
    rw [hsplit, ← ih, after_snoc]
    rcases state_cases (after a b es) with hoff | hon
    · rw [update_of_off hoff, (after_thresholds a b es).2]
      by_cases hge : b ≤ e
      · rw [if_pos hge]
        exact ⟨fun _ => Or.inr hge, fun _ => rfl⟩
      · rw [if_neg hge]
        exact ⟨Or.inl, fun h => h.resolve_right hge⟩
    · rw [update_of_on hon]
      exact ⟨Or.inl, fun _ => hon⟩

/-! ## Cutting power -/

/-- After every update with an energy at or below the lower threshold the power is off, and if it was on before, one
    POWEROFF has been sent; and the messages of the whole run alternate. -/
def CutsPower (thres1ToOff thresOffTo1 : Rat) (es : List Rat) : Prop :=
  (∀ pre e post, es = pre ++ e :: post → e ≤ thres1ToOff →
    (after thres1ToOff thresOffTo1 (pre ++ [e])).state = .powerOff ∧
      ((after thres1ToOff thresOffTo1 pre).state = .powerOn →
        ((after thres1ToOff thresOffTo1 pre).update e).2 = [State.powerOff.msg])) ∧
    Alternates State.powerOff.msg State.powerOn.msg (sent thres1ToOff thresOffTo1 es)

/-- Before an energy at or below the lower threshold, none has reached the upper one. -/
def NeverFalls (thres1ToOff thresOffTo1 : Rat) (es : List Rat) : Prop :=
  ∀ pre e post, es = pre ++ e :: post → e ≤ thres1ToOff → ∀ x ∈ pre, x < thresOffTo1

theorem NeverFalls.init {a b : Rat} {es : List Rat} {e : Rat} (h : NeverFalls a b (es ++ [e])) :
    NeverFalls a b es := by
  intro pre x post heq
  exact h pre x (post ++ [e]) (by rw [heq, append_assoc]; rfl)

/-- The messages of a run that never falls, by its last state. -/
def State.told : State → List EnergyMsg
  | powerOff => [powerOff.msg]
  | powerOn => [powerOff.msg, powerOn.msg]

theorem sent_of_neverFalls {a b : Rat} {es : List Rat} (h : NeverFalls a b es) :
    sent a b es = (after a b es).state.told := by
  induction es using List.reverseRecOn with
  | nil => rfl
  | append_singleton es e ih =>
    rw [sent_snoc, after_snoc, ih h.init]
    rcases state_cases (after a b es) with hoff | hon
    · rw [update_of_off hoff]
      split
      · rw [hoff]
        rfl
      · rw [append_nil]
    · -- the energy is not low: one that has switched the power on came before
      obtain ⟨x, hx, hge⟩ := (state_eq_powerOn a b es).mp hon
      have hhigh : ¬ e ≤ (after a b es).thres1ToOff := by
        rw [(after_thresholds a b es).1]
        intro hle
        exact absurd hge (not_le.mpr (h es e [] rfl hle x hx))
      rw [update_of_on hon, if_neg hhigh, append_nil]

/-- **`SM_TwoThres` cuts power exactly in the runs in which there is nothing to cut.** -/
theorem cutsPower_iff {thres1ToOff thresOffTo1 : Rat} (hlt : thres1ToOff < thresOffTo1) (es : List Rat) :
    CutsPower thres1ToOff thresOffTo1 es ↔ NeverFalls thres1ToOff thresOffTo1 es := by
  constructor
  · intro hcuts pre e post heq hle x hx
    by_contra hge
    have hon : (after thres1ToOff thresOffTo1 (pre ++ [e])).state = .powerOn :=
      (state_eq_powerOn _ _ _).mpr ⟨x, mem_append_left _ hx, not_lt.mp hge⟩
    cases hon.symm.trans (hcuts.1 pre e post heq hle).1
  · intro hnever
    refine ⟨?_, ?_⟩
    · intro pre e post heq hle
      have hbefore : (after thres1ToOff thresOffTo1 pre).state ≠ .powerOn := by
        intro hon
        obtain ⟨x, hx, hge⟩ := (state_eq_powerOn _ _ _).mp hon
        exact absurd hge (not_le.mpr (hnever pre e post heq hle x hx))
      refine ⟨?_, fun hon => absurd hon hbefore⟩
      have hoff := (state_cases (after thres1ToOff thresOffTo1 pre)).resolve_right hbefore
      rw [after_snoc, update_of_off hoff, (after_thresholds _ _ pre).2, if_neg (not_le.mpr (hle.trans_lt hlt))]
      exact hoff
    · rw [sent_of_neverFalls hnever]
      rcases state_cases (after thres1ToOff thresOffTo1 es) with hst | hst <;> rw [hst]
      · exact ⟨by decide, .singleton _⟩
      · exact ⟨by decide, by decide⟩

/-- With the thresholds 2 and 5: power comes at 6 and stays. -/
theorem cutsPower_six : (2 : Rat) < 5 ∧ CutsPower 2 5 [1, 6] := by
  have hlt : (2 : Rat) < 5 := by decide +kernel
  refine ⟨hlt, (cutsPower_iff hlt [1, 6]).mpr ?_⟩
  intro pre e post heq hle x hx
  match pre, heq with
  | [], _ => cases hx
  | [y], heq =>
    -- the only energy before another one is the 1 before the 6
    cases heq
    cases mem_singleton.mp hx
    exact absurd hle (by decide +kernel)
  | _ :: _ :: _ :: _, heq => simp at heq
  | [_, _], heq => simp at heq

/-- With the thresholds 2 and 5: at 1 after 6 the machine stays on and sends a second POWERON. -/
theorem not_cutsPower_one : (2 : Rat) < 5 ∧ (after 2 5 [6, 1]).state = .powerOn ∧
      sent 2 5 [6, 1] = [State.powerOff.msg, State.powerOn.msg, State.powerOn.msg] ∧ ¬ CutsPower 2 5 [6, 1] := by
  refine ⟨by decide +kernel, by decide +kernel, by decide +kernel, ?_⟩
  intro hcuts
  have hoff := (hcuts.1 [6] 1 [] rfl (by decide +kernel)).1
  exact absurd hoff (by decide +kernel)

end SMTwoThres

end NvpSim.Energy
