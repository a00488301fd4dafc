/-
  The energy ledger: does the manager ever CREATE energy?

  In a run of harvests, consumptions and message deliveries from an empty store the ledger is sound when
  `energy_remained` never exceeds the scaled sum of the samples harvested so far (`harvestedSoFar`), a
  consumption never raises it, and a harvest raises it by at most its own scaled sample.

  The LOWER clamp assigns `energy_consume_lower_bound` whenever the new value is below it, also when the OLD
  value was, and the store starts at 0, below every positive threshold (`lower_clamp_creates_energy`).
-/
import NvpSim.Energy.Mgmt
import NvpSim.Lib.Run
import Mathlib.Algebra.BigOperators.Group.List.Basic
import Mathlib.Tactic.Linarith
import Mathlib.Tactic.Ring

namespace NvpSim.Energy

open NvpSim.Sim NvpSim.Lib List

/-! ## The run: harvest events, consumptions and message deliveries in any order -/

/-- What happens to the manager: a harvest event fires, somebody consumes, or `event_msg` delivers
    a queued message (the consumptions its receivers answer with are steps of their own). -/
inductive LedgerAct where
  | harvest (t : Tick)
  | consume (t : Tick) (val : Rat)
  | deliver (t : Tick)

namespace LedgerAct

/-- Consumptions are calls with a positive amount. -/
def Positive : LedgerAct → Prop
  | harvest _ => True
  | consume _ val => 0 < val
  | deliver _ => True

instance : DecidablePred Positive := fun a =>
  match a with
  | harvest _ => inferInstanceAs (Decidable True)
  | consume _ val => inferInstanceAs (Decidable (0 < val))
  | deliver _ => inferInstanceAs (Decidable True)

def isHarvest : LedgerAct → Bool
  | harvest _ => true
  | consume _ _ => false
  | deliver _ => false

end LedgerAct

namespace EnergyMgmt

variable {M : Type} [BaseEnergySM M]

/-- One step.  The queue clears an event's flag before it runs the handler. -/
def ledgerStep (p : EnergyMgmtParams) (m : EnergyMgmt M) : LedgerAct → Option (EnergyMgmt M)
  | .harvest t => energyHarvest p t { m with eventEnergyHarvest := m.eventEnergyHarvest.fired }
  | .consume t val => m.consumeEnergy p t val
  | .deliver t => (broadcastMsg t { m with eventMsg := m.eventMsg.fired }).map Prod.snd

/-- The scaled amount the next harvest event puts in. -/
def scaledHarvest (p : EnergyMgmtParams) (m : EnergyMgmt M) : Rat :=
  m.energyHarvestData.getLast?.getD 0 * p.energyProfileMult

/-- A step is sound when it adds no energy, a harvest no more than what it harvests. -/
def StepSound (p : EnergyMgmtParams) (m : EnergyMgmt M) (a : LedgerAct) (m' : EnergyMgmt M) : Prop :=
  match a with
  | .harvest _ => m'.energyRemained ≤ m.energyRemained + m.scaledHarvest p
  | .consume _ _ | .deliver _ => m'.energyRemained ≤ m.energyRemained

/-- **The exact condition**: the lower clamp is not reached from below.  A consumption starts at
    or above the lower bound; a harvest of a positive sample ends at or above it, or above the
    capacity. -/
def NoLift (p : EnergyMgmtParams) (m : EnergyMgmt M) : LedgerAct → Prop
  | .harvest _ => 0 < m.scaledHarvest p →
      BaseEnergySM.energyConsumeLowerBound m.stateMachine ≤ m.energyRemained + m.scaledHarvest p ∨
        p.upperBound < m.energyRemained + m.scaledHarvest p
  | .consume _ _ => BaseEnergySM.energyConsumeLowerBound m.stateMachine ≤ m.energyRemained
  | .deliver _ => True

instance (p : EnergyMgmtParams) (m : EnergyMgmt M) (a : LedgerAct) : Decidable (NoLift p m a) :=
  match a with
  | .harvest _ => inferInstanceAs (Decidable (_ → _))
  | .consume _ _ => inferInstanceAs (Decidable (_ ≤ _))
  | .deliver _ => inferInstanceAs (Decidable True)

/-- Everything harvested so far, scaled: the samples of the profile in the order of the file, one
    per harvest event. -/
def harvestedSoFar (p : EnergyMgmtParams) (acts : List LedgerAct) : Rat :=
  (p.profile.take (acts.countP LedgerAct.isHarvest)).sum * p.energyProfileMult

/-! ## The two clamps -/

variable {m : EnergyMgmt M}

theorem energyAfterConsume_le_iff {val : Rat} (hval : 0 < val) : m.energyAfterConsume val ≤ m.energyRemained ↔
      BaseEnergySM.energyConsumeLowerBound m.stateMachine ≤ m.energyRemained := by
  unfold energyAfterConsume
  simp only
  split
  · exact Iff.rfl
  · exact ⟨fun _ => by linarith, fun _ => by linarith⟩

theorem energyAfterHarvest_le_iff {p : EnergyMgmtParams} {e : Rat} (hsimple : p.harvestModule = .simple)
    (hleak : BaseEnergySM.poweronDirtyPatch m.stateMachine = false) :
    m.energyAfterHarvest p e ≤ m.energyRemained + e * p.energyProfileMult ↔
      BaseEnergySM.energyConsumeLowerBound m.stateMachine ≤ m.energyRemained + e * p.energyProfileMult ∨
        p.upperBound < m.energyRemained + e * p.energyProfileMult := by
  unfold energyAfterHarvest
  simp only [hsimple, hleak, Harvester.energyHarvest, Bool.false_eq_true, if_false]
  split
  · rename_i hub
    exact ⟨fun _ => Or.inr hub, fun _ => hub.le⟩
  · rename_i hub
    split
    · exact ⟨Or.inl, fun h => h.resolve_right hub⟩
    · rename_i hlb
      exact ⟨fun _ => Or.inl (not_lt.mp hlb), fun _ => le_refl _⟩

theorem min_bounds_le_energyAfter {p : EnergyMgmtParams} {val : Rat} (hval : val ≠ 0) :
    min (BaseEnergySM.energyConsumeLowerBound m.stateMachine) p.upperBound ≤ m.energyAfter p val := by
  unfold energyAfter energyAfterConsume energyAfterHarvest
  simp only
  split
  · split
    · exact min_le_left _ _
    · rename_i hge
      exact (min_le_left _ _).trans (not_lt.mp hge)
  · rename_i hnonpos
    have hneg : val < 0 := lt_of_le_of_ne (not_lt.mp hnonpos) hval
    rw [if_pos hneg]
    generalize p.harvestModule.energyHarvest _ _ = remained
    split
    · exact min_le_right _ _
    · split
      · exact min_le_left _ _
      · rename_i hge
        exact (min_le_left _ _).trans (not_lt.mp hge)

end EnergyMgmt

/-! ## The ledger of a manager with a `SimpleEnergySM` -/

namespace EnergyMgmt

variable {p : EnergyMgmtParams} {m m' : EnergyMgmt SimpleEnergySM}

/-- The part of the state the ledger depends on: the samples still to come are the profile
    without the ones harvested so far. -/
def ProfileLeft (p : EnergyMgmtParams) (acts : List LedgerAct) (m : EnergyMgmt SimpleEnergySM) : Prop :=
  m.energyHarvestData = (p.profile.drop (acts.countP LedgerAct.isHarvest)).reverse

theorem deliver_frame {t : Tick} (hs : m.ledgerStep p (.deliver t) = some m') :
    m'.energyRemained = m.energyRemained ∧ m'.stateMachine = m.stateMachine ∧
      m'.energyHarvestData = m.energyHarvestData := by
  obtain ⟨⟨msg, m1⟩, h1, rfl⟩ := Option.map_eq_some_iff.mp hs
  obtain ⟨he, hm, hd⟩ := broadcastMsg_frame h1
  exact ⟨he, hm, hd⟩

variable {a : LedgerAct}

theorem countP_harvest (acts : List LedgerAct) (t : Tick) :
    (acts ++ [LedgerAct.harvest t]).countP LedgerAct.isHarvest = acts.countP LedgerAct.isHarvest + 1 := by
  rw [countP_append]
  rfl

theorem profileLeft_step {acts : List LedgerAct} (h : ProfileLeft p acts m)
    (hs : m.ledgerStep p a = some m') : ProfileLeft p (acts ++ [a]) m' := by
  unfold ProfileLeft at h ⊢
  cases a with
  | consume t val =>
    rw [(consumeEnergy_spec hs).2.2, h, countP_append]
    rfl
  | deliver t =>
    rw [(deliver_frame hs).2.2, h, countP_append]
    rfl
  | harvest t =>
    rw [countP_harvest, ← drop_drop]
    rcases energyHarvest_spec hs with ⟨hnil, rfl⟩ | ⟨e, rest, hdata, hrest, -, -⟩
    · have hnil' : m.energyHarvestData = [] := hnil
      show m.energyHarvestData = _
      rw [hnil', eq_comm, reverse_eq_nil_iff]
      rw [hnil', eq_comm, reverse_eq_nil_iff] at h
      rw [h, drop_nil]
    · -- `rest ++ [e]` is the reversed rest of the profile, so `e` is its head
      have hdata' : m.energyHarvestData = rest ++ [e] := hdata
      rw [hdata', eq_comm, reverse_eq_append_iff] at h
      rw [hrest, h]
      simp

theorem harvestedSoFar_snoc {acts : List LedgerAct} (h : ProfileLeft p acts m) : harvestedSoFar p (acts ++ [a]) =
      harvestedSoFar p acts + (if a.isHarvest then m.scaledHarvest p else 0) := by
  unfold harvestedSoFar
  cases a with
  | consume t val | deliver t =>
    rw [countP_append]
    simp [LedgerAct.isHarvest]
  | harvest t =>
    have hlast : m.energyHarvestData.getLast? = (p.profile.drop (acts.countP LedgerAct.isHarvest)).head? := by
      rw [h, getLast?_reverse]
    rw [countP_harvest, take_add_one, scaledHarvest, hlast, head?_drop]
    cases hget : p.profile[acts.countP LedgerAct.isHarvest]? with
    | none => simp [LedgerAct.isHarvest]
    | some e => simp [LedgerAct.isHarvest]; ring

/-- **One step of the ledger**: sound exactly under `NoLift`. -/
theorem stepSound_iff (hsimple : p.harvestModule = .simple) (hmult : 0 < p.energyProfileMult)
    (hdata : ∀ e ∈ m.energyHarvestData, 0 ≤ e) (hpos : a.Positive) (hs : m.ledgerStep p a = some m') :
    StepSound p m a m' ↔ NoLift p m a := by
  cases a with
  | consume t val =>
    show m'.energyRemained ≤ m.energyRemained ↔ _
    have hval : 0 < val := hpos
    rw [(consumeEnergy_spec hs).1, energyAfter, if_pos hval]
    exact energyAfterConsume_le_iff hval
  | deliver t => exact iff_of_true (deliver_frame hs).1.le trivial
  | harvest t =>
    show m'.energyRemained ≤ m.energyRemained + m.scaledHarvest p ↔ _
    rcases energyHarvest_spec hs with ⟨hnil, rfl⟩ | ⟨e, rest, hrest, -, he, -⟩
    · -- the profile is used up: nothing comes in and nothing moves
      have hz : m.scaledHarvest p = 0 := by
        have hnil' : m.energyHarvestData = [] := hnil
        rw [scaledHarvest, hnil']; simp
      simp [NoLift, hz]
    · have hrest' : m.energyHarvestData = rest ++ [e] := hrest
      have hz : m.scaledHarvest p = e * p.energyProfileMult := by
        rw [scaledHarvest, hrest', getLast?_concat]; rfl
      have he0 : 0 ≤ e := hdata e (by rw [hrest']; simp)
      rw [he, NoLift, hz]
      rcases he0.lt_or_eq with hlt | heq
      · have hscaled : 0 < e * p.energyProfileMult := mul_pos hlt hmult
        have hval : ¬ (0 : Rat) < -e := by linarith
        have hneg : -e < 0 := by linarith
        rw [energyAfter, if_neg hval, if_pos hneg, neg_neg]
        rw [show ∀ P : Prop, (0 < e * p.energyProfileMult → P) ↔ P from
          fun P => ⟨fun hP => hP hscaled, fun hP _ => hP⟩]
        exact energyAfterHarvest_le_iff hsimple rfl
      · -- a zero sample is neither a consumption nor a harvest
        subst heq
        simp [energyAfter]

/-- **The ledger is sound over every run whose steps meet `NoLift`**, and exactly then: in each
    state such a run reaches, `energy_remained` is covered by what was harvested so far, and the
    next step — consumption or harvest — creates no energy if and only if it meets `NoLift`. -/
theorem ledger_sound (p : EnergyMgmtParams) (thres1ToOff thresOffTo1 : Rat)
    (hsimple : p.harvestModule = .simple) (hmult : 0 < p.energyProfileMult)
    (hprofile : ∀ e ∈ p.profile, 0 ≤ e) {acts : List LedgerAct} {m : EnergyMgmt SimpleEnergySM}
    (h : Run (Guarded (stepOf (ledgerStep p)) (fun m a => a.Positive ∧ NoLift p m a))
      (new p (SimpleEnergySM.new thres1ToOff thresOffTo1)) acts m) : m.energyRemained ≤ harvestedSoFar p acts ∧
      ∀ a m', a.Positive → m.ledgerStep p a = some m' → (StepSound p m a m' ↔ NoLift p m a) := by
  have hdata : ∀ {acts : List LedgerAct} {m : EnergyMgmt SimpleEnergySM},
      ProfileLeft p acts m → ∀ e ∈ m.energyHarvestData, 0 ≤ e := by
    intro acts m hleft e he
    rw [hleft, mem_reverse] at he
    exact hprofile e (mem_of_mem_drop he)
  -- the invariant: the profile still to come, and the ledger itself
  have hinv : ProfileLeft p acts m ∧ m.energyRemained ≤ harvestedSoFar p acts := by
    refine h.inv_hist (P := fun acts m =>
      ProfileLeft p acts m ∧ m.energyRemained ≤ harvestedSoFar p acts) ?_ ?_
    · rintro acts m a m' ⟨hleft, hle⟩ ⟨hs, hpos, hno⟩
      refine ⟨profileLeft_step hleft hs, ?_⟩
      have hsound := (stepSound_iff hsimple hmult (hdata hleft) hpos hs).mpr hno
      rw [harvestedSoFar_snoc hleft]
      cases a with
      | harvest t =>
        have hsound' : m'.energyRemained ≤ m.energyRemained + m.scaledHarvest p := hsound
        simp only [LedgerAct.isHarvest, if_true]
        linarith
      | consume t val | deliver t =>
        have hsound' : m'.energyRemained ≤ m.energyRemained := hsound
        simp only [LedgerAct.isHarvest, Bool.false_eq_true, if_false]
        linarith
    · refine ⟨rfl, ?_⟩
      show (0 : Rat) ≤ harvestedSoFar p []
      simp [harvestedSoFar]
  exact ⟨hinv.2, fun a m' hpos hs => stepSound_iff hsimple hmult (hdata hinv.1) hpos hs⟩

/-- `ledger_sound` at a concrete run: under a threshold of 1 nJ, harvest 3 nJ, then consume 1. -/
theorem ledger_sound_three_nJ : ∃ m : EnergyMgmt SimpleEnergySM, exec (guardFn (ledgerStep (.default 10 [3]))
          (fun m a => a.Positive ∧ NoLift (.default 10 [3]) m a))
        (new (.default 10 [3]) (SimpleEnergySM.new 1 2)) [.harvest 0, .consume 5 1] = some m ∧ m.energyRemained = 2 ∧
      m.energyRemained ≤ harvestedSoFar (.default 10 [3]) [.harvest 0, .consume 5 1] := by
  refine exec_observe EnergyMgmt.energyRemained 2 (by decide +kernel) fun m hm he => ?_
  exact ⟨he, (ledger_sound _ 1 2 rfl (by decide) (by decide) (exec_guardFn_iff.mp hm)).1⟩

/-- **Where the ledger breaks**: a first sample of 1 nJ under a switch-off threshold of 2 nJ leaves
    2 nJ in the store, more than was ever harvested. -/
theorem lower_clamp_creates_energy : ∃ m : EnergyMgmt SimpleEnergySM,
      Run (Guarded (stepOf (ledgerStep (.default 10 [1]))) (fun _ a => a.Positive))
        (new (.default 10 [1]) (SimpleEnergySM.new 2 3)) [.harvest 0] m ∧
      ¬ m.energyRemained ≤ harvestedSoFar (.default 10 [1]) [.harvest 0] := by
  refine run_observe EnergyMgmt.energyRemained 2 (by decide +kernel) fun m hm he => ?_
  rw [he]
  decide +kernel

end EnergyMgmt
end NvpSim.Energy
