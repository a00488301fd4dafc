/-
  Can `DFS_LRY` be switched off? The energy manager does not let the energy fall below the machine's
  `energy_consume_lower_bound`, and `DFS_LRY` sets that to `thres_1_to_retention - 1`: not low enough to leave
  the retention state unless `thres_retention_to_off` is at most 1 below `thres_1_to_retention`.

  `Sinks p st` says that the lowest energy allowed is low enough to go down from `st`.
-/
import NvpSim.Energy.Agreement
import NvpSim.Energy.DfsLry
import Mathlib.Tactic.FieldSimp

namespace NvpSim.Energy

open NvpSim.Sim NvpSim.Lib Option

namespace DfsLry

/-- The lower clamp of the energy manager, `energy_consume_lower_bound`. -/
def Params.lowerBound (p : Params) : Rat := p.thres1ToRetention - 1

/-- The lowest energy that the manager allows is low enough to go down from `st`. -/
def Params.Sinks (p : Params) : State → Prop
  | .init | .powerOff => True
  | .retention => p.lowerBound ≤ p.thresRetentionTo1 ∧ p.lowerBound ≤ p.thresRetentionToOff
  | .freq1 => p.lowerBound ≤ p.thres1To2
  | .freq2 => p.lowerBound ≤ p.thres2To1
  | .freq3 => p.lowerBound ≤ p.thres3To2
  | .freq4 => p.lowerBound ≤ p.thres4To3
  | .freq5 => p.lowerBound ≤ p.thres5To4

instance (p : Params) (st : State) : Decidable (p.Sinks st) :=
  match st with
  | .init | .powerOff => isTrue trivial
  | .retention => inferInstanceAs (Decidable (_ ∧ _))
  | .freq1 | .freq2 | .freq3 | .freq4 | .freq5 => inferInstanceAs (Decidable (_ ≤ _))

theorem State.toNat_injective : Function.Injective State.toNat := by
  intro st st' h
  cases st <;> cases st' <;> first | rfl | cases h

variable {sm : DfsLry}

theorem update_lowerBound (h : sm.thres.Sinks sm.state) (hoff : sm.state ≠ .powerOff) :
    (sm.update sm.thres.lowerBound).1.state = .powerOff ∨
      (sm.update sm.thres.lowerBound).1.state.toNat < sm.state.toNat := by
  have hret : sm.thres.lowerBound ≤ sm.thres.thres1ToRetention := by
    unfold Params.lowerBound
    linarith
  -- the energy is low for the state, and not high if that is looked at first
  have hlow : sm.state ≠ .init → sm.falls sm.thres.lowerBound ∧
      (sm.rises sm.thres.lowerBound → sm.state.looksUp = false) := by
    intro hinit
    unfold falls rises
    cases hst : sm.state <;> simp only [hst] at h
    · exact absurd hst hinit
    · exact absurd hst hoff
    · exact ⟨h.2, fun hhigh => absurd h.1 (not_le.mpr hhigh)⟩
    · exact ⟨hret, fun hhigh => absurd h (not_le.mpr hhigh)⟩
    all_goals exact ⟨h, fun _ => rfl⟩
  obtain ⟨-, ⟨-, hnot, hnot'⟩ | ⟨hup, hrises, hfirst⟩ | ⟨hdown, hfalls, -⟩⟩ :=
    update_spec sm sm.thres.lowerBound
  · by_cases hinit : sm.state = .init
    · exact absurd (by simp [rises, hinit]) hnot
    · exact absurd (hlow hinit).1 hnot'
  · by_cases hinit : sm.state = .init
    · exact Or.inl (by rw [hup, hinit]; rfl)
    · cases (hfirst (hlow hinit).1).symm.trans ((hlow hinit).2 hrises)
  · have hinit : sm.state ≠ .init := fun hst => by simp [falls, hst] at hfalls
    rw [hdown]
    revert hinit
    cases sm.state <;> decide

theorem pred_le_update (sm : DfsLry) (e : Rat) : sm.state.toNat ≤ (sm.update e).1.state.toNat + 1 := by
  by_cases hfalls : sm.falls e
  · obtain ⟨-, ⟨hquiet, -⟩ | ⟨hup, -⟩ | ⟨hdown, -⟩⟩ := update_spec sm e
    · rw [hquiet]
      exact Nat.le_succ _
    · rw [hup]
      exact sm.state.toNat_le_above.trans (Nat.le_succ _)
    · rw [hdown]
      exact sm.state.toNat_le_below
  · exact (le_update e hfalls).trans (Nat.le_succ _)

theorem le_update_of_not_sinks (h : ¬ sm.thres.Sinks sm.state) {e : Rat}
    (he : sm.thres.lowerBound ≤ e) : sm.state.toNat ≤ (sm.update e).1.state.toNat := by
  obtain ⟨-, ⟨hquiet, -⟩ | ⟨hup, -⟩ | ⟨hdown, hfalls, hfirst⟩⟩ := update_spec sm e
  · rw [hquiet]
  · rw [hup]
    exact sm.state.toNat_le_above
  · refine absurd ?_ h
    unfold falls at hfalls
    unfold rises at hfirst
    cases hst : sm.state <;> simp only [hst] at hfalls hfirst
    · exact ⟨he.trans (not_lt.mp fun hhigh => (by cases hfirst hhigh)), he.trans hfalls⟩
    · exact he.trans (not_lt.mp fun hhigh => (by cases hfirst hhigh))
    all_goals exact he.trans hfalls

theorem update_above {e : Rat} (hrises : sm.rises e) (h : sm.falls e → sm.state.looksUp = true) :
    (sm.update e).1.state = sm.state.above := by
  obtain ⟨-, ⟨-, hnot, -⟩ | ⟨hup, -⟩ | ⟨-, hfalls, hfirst⟩⟩ := update_spec sm e
  · exact absurd hrises hnot
  · exact hup
  · cases (h hfalls).symm.trans (hfirst hrises)

end DfsLry

/-! ## Draining -/

namespace EnergyMgmt

open DfsLry

/-- There are calls of `consumeEnergy` after which the machine is off. -/
def CanPowerOff (p : EnergyMgmtParams) (m : EnergyMgmt DfsLry) : Prop :=
  ∃ (calls : List (Tick × Rat)) (m' : EnergyMgmt DfsLry),
    exec (fun m c => m.consumeEnergy p c.1 c.2) m calls = some m' ∧ m'.stateMachine.state = .powerOff

variable {p : EnergyMgmtParams} {m m' : EnergyMgmt DfsLry} {thres : Params} {t : Tick}

theorem CanPowerOff.of_call {val : Rat} (hs : m.consumeEnergy p t val = some m')
    (h : CanPowerOff p m') : CanPowerOff p m := by
  obtain ⟨calls, m'', hexec, hoff⟩ := h
  refine ⟨(t, val) :: calls, m'', ?_, hoff⟩
  show (m.consumeEnergy p t val).bind _ = some m''
  rw [hs]
  exact hexec

theorem exists_drain (h : m.Calm) (p : EnergyMgmtParams) (t : Tick) :
    ∃ val m', 0 < val ∧ m.consumeEnergy p t val = some m' ∧ m'.Calm ∧
      m'.stateMachine = (m.stateMachine.update m.stateMachine.thres.lowerBound).1 := by
  have hpos : 0 < max 1 (m.energyRemained - m.stateMachine.thres.lowerBound + 1) :=
    lt_max_of_lt_left one_pos
  obtain ⟨m', hs, hcalm⟩ := h.consumeEnergy p t (max 1 (m.energyRemained - m.stateMachine.thres.lowerBound + 1))
  refine ⟨_, m', hpos, hs, hcalm, ?_⟩
  obtain ⟨-, hsm, -⟩ := consumeEnergy_spec hs
  have hbelow : m.energyRemained - max 1 (m.energyRemained - m.stateMachine.thres.lowerBound + 1) <
      m.stateMachine.thres.lowerBound := by
    have := le_max_right 1 (m.energyRemained - m.stateMachine.thres.lowerBound + 1)
    linarith
  have henergy : m.energyAfter p (max 1 (m.energyRemained - m.stateMachine.thres.lowerBound + 1)) =
      m.stateMachine.thres.lowerBound := by
    unfold energyAfter
    rw [if_pos hpos]
    exact if_pos hbelow
  rw [hsm, henergy]
  rfl

/-- **If every state sinks, draining leads to off**: each drain goes down a level. -/
theorem canPowerOff_of_sinks (hsinks : ∀ st, thres.Sinks st) (p : EnergyMgmtParams) (n : Nat) :
    ∀ {m : EnergyMgmt DfsLry}, m.stateMachine.state.toNat = n → m.Calm →
      m.stateMachine.thres = thres → CanPowerOff p m := by
  induction n using Nat.strong_induction_on with
  | h n ih =>
    intro m hn hcalm hthres
    by_cases hoff : m.stateMachine.state = .powerOff
    · exact ⟨[], m, rfl, hoff⟩
    · obtain ⟨val, m', -, hs, hcalm', hsm⟩ := exists_drain hcalm p 0
      have hthres' : m'.stateMachine.thres = thres := by
        rw [hsm, update_thres, hthres]
      rcases update_lowerBound (by rw [hthres]; exact hsinks _) hoff with hdone | hlt
      · exact .of_call hs ⟨[], m', rfl, by rw [hsm]; exact hdone⟩
      · exact .of_call hs (ih _ (by rw [hsm, ← hn]; exact hlt) rfl hcalm' hthres')

/-! ## Reachable states -/

/-- The states of the manager with a `DFS_LRY`, after start-up and any harvests, calls and deliveries. -/
def Reachable (p : EnergyMgmtParams) (t : Tick) (thres : Params) (m : EnergyMgmt DfsLry) : Prop :=
  ∃ m₀ acts, start p t (DfsLry.new thres) DfsLry.init = some m₀ ∧ Run (stepOf (ledgerStep p)) m₀ acts m

theorem Reachable.step {a : LedgerAct} (h : Reachable p t thres m) (hs : m.ledgerStep p a = some m') :
    Reachable p t thres m' := by
  obtain ⟨m₀, acts, hstart, hrun⟩ := h
  exact ⟨m₀, acts ++ [a], hstart, hrun.snoc hs⟩

/-- What holds in every reachable state. -/
def Proper (thres : Params) (m : EnergyMgmt DfsLry) : Prop := m.Calm ∧ m.stateMachine.thres = thres

theorem Proper.ledgerStep {a : LedgerAct} (h : Proper thres m) (hs : m.ledgerStep p a = some m') :
    Proper thres m' := by
  obtain ⟨hcalm, hthres⟩ := h
  cases a with
  | consume t val =>
    refine ⟨hcalm.of_consumeEnergy hs, ?_⟩
    rw [(consumeEnergy_spec hs).2.1]
    exact (update_thres _ _).trans hthres
  | harvest t =>
    obtain ⟨m₁, h₁, hcalm₁⟩ := Calm.energyHarvest
      (m := { m with eventEnergyHarvest := m.eventEnergyHarvest.fired }) hcalm p t rfl
    cases hs.symm.trans h₁
    refine ⟨hcalm₁, ?_⟩
    rcases energyHarvest_spec h₁ with ⟨-, rfl⟩ | ⟨e, rest, -, -, -, hsm⟩
    · exact hthres
    · rw [hsm]
      exact (update_thres _ _).trans hthres
  | deliver t =>
    obtain ⟨⟨msg, m₁⟩, h₁, rfl⟩ := map_eq_some_iff.mp hs
    refine ⟨?_, by rw [(broadcastMsg_frame h₁).2.1]; exact hthres⟩
    -- the event is scheduled again if another message is left
    unfold broadcastMsg at h₁
    split at h₁
    · cases h₁
    · rename_i msg' rest hq
      split at h₁
      · rename_i hne
        obtain ⟨e, he, heq⟩ := map_eq_some_iff.mp h₁
        obtain ⟨-, -, rfl⟩ := Event.schedule_eq_some.mp he
        cases heq
        exact ⟨fun _ => hne, fun _ => rfl⟩
      · rename_i hnil
        cases h₁
        exact ⟨nofun, fun hne => absurd hne hnil⟩

theorem start_proper (p : EnergyMgmtParams) (t : Tick) (thres : Params) :
    ∃ m₀, start p t (DfsLry.new thres) DfsLry.init = some m₀ ∧ Proper thres m₀ ∧
      m₀.stateMachine.state = .powerOff := by
  obtain ⟨m₁, m₀, h₁, hstart, hcalm, -, hsm, -⟩ := start_spec p t (DfsLry.new thres) DfsLry.init
  have hthres : m₁.stateMachine.thres = thres := by
    rcases energyHarvest_spec h₁ with ⟨-, rfl⟩ | ⟨e, rest, -, -, -, hsm₁⟩
    · rfl
    · rw [hsm₁]
      exact update_thres _ _
  exact ⟨m₀, hstart, ⟨hcalm, by rw [hsm]; exact hthres⟩, by rw [hsm]; rfl⟩

theorem Reachable.proper (h : Reachable p t thres m) : Proper thres m := by
  obtain ⟨m₀, acts, hstart, hrun⟩ := h
  obtain ⟨m₁, hstart₁, hproper, -⟩ := start_proper p t thres
  cases hstart.symm.trans hstart₁
  exact hrun.inv (fun m a m' hm hs => hm.ledgerStep hs) hproper

/-! ## A floor -/

/-- The machine is at or above the level `n`, and the energy is at or above the lower bound. -/
def Floor (thres : Params) (n : Nat) (m : EnergyMgmt DfsLry) : Prop :=
  m.stateMachine.thres = thres ∧ n ≤ m.stateMachine.state.toNat ∧ thres.lowerBound ≤ m.energyRemained

theorem Floor.consumeEnergy {st : State} (hst : ¬ thres.Sinks st) (hbound : thres.lowerBound ≤ p.upperBound)
    (h : Floor thres st.toNat m) {val : Rat} (hs : m.consumeEnergy p t val = some m') : Floor thres st.toNat m' := by
  obtain ⟨hthres, hlevel, henergy⟩ := h
  obtain ⟨he, hsm, -⟩ := consumeEnergy_spec hs
  have hlow : BaseEnergySM.energyConsumeLowerBound m.stateMachine = thres.lowerBound := by
    rw [← hthres]
    rfl
  have henergy' : thres.lowerBound ≤ m.energyAfter p val := by
    by_cases hzero : val = 0
    · rw [hzero]
      unfold energyAfter
      exact henergy
    · rw [← hlow]
      exact lowerBound_le_energyAfter (hlow.trans_le hbound) hzero
  refine ⟨by rw [hsm]; exact (update_thres _ _).trans hthres, ?_, by rw [he]; exact henergy'⟩
  rw [hsm]
  show st.toNat ≤ (m.stateMachine.update (m.energyAfter p val)).1.state.toNat
  rcases Nat.lt_or_eq_of_le hlevel with habove | hat
  · have := pred_le_update m.stateMachine (m.energyAfter p val)
    omega
  · -- at the floor: this is the state that does not sink
    have hsame : m.stateMachine.state = st := State.toNat_injective hat.symm
    rw [hat]
    exact le_update_of_not_sinks (by rw [hthres, hsame]; exact hst) (by rw [hthres]; exact henergy')

/-- **A floor keeps the machine from ever going off.** -/
theorem Floor.not_canPowerOff {st : State} (hst : ¬ thres.Sinks st)
    (hbound : thres.lowerBound ≤ p.upperBound) (h : Floor thres st.toNat m) : ¬ CanPowerOff p m := by
  rintro ⟨calls, m', hexec, hoff⟩
  have hfloor : Floor thres st.toNat m' :=
    (exec_iff.mp hexec).inv (fun m c m' hm hs => hm.consumeEnergy hst hbound hs) h
  have hlevel := hfloor.2.1
  rw [hoff] at hlevel
  -- off and below it everything sinks
  cases st <;> first | exact hst trivial | exact absurd hlevel (by decide)

/-! ## Charging -/

/-- The supply can fill the store, and a full store is above the thresholds. -/
structure Capable (p : EnergyMgmtParams) (thres : Params) : Prop where
  simple : p.harvestModule = .simple
  mult : 0 < p.energyProfileMult
  lower : thres.lowerBound ≤ p.upperBound
  off1 : thres.thresOffTo1 < p.upperBound
  freq12 : thres.thres1To2 < p.upperBound
  freq21 : thres.thres2To1 < p.upperBound
  freq23 : thres.thres2To3 < p.upperBound
  freq32 : thres.thres3To2 < p.upperBound
  freq34 : thres.thres3To4 < p.upperBound
  freq43 : thres.thres4To3 < p.upperBound
  freq45 : thres.thres4To5 < p.upperBound

theorem exists_charge (hcap : Capable p thres) (h : m.Calm) (t : Tick) :
    ∃ val m', m.consumeEnergy p t val = some m' ∧ m'.energyRemained = p.upperBound ∧
      m'.stateMachine = (m.stateMachine.update p.upperBound).1 := by
  -- what leaks is made up for
  obtain ⟨leaked, hleaked⟩ : ∃ leaked, leaked =
      if BaseEnergySM.poweronDirtyPatch m.stateMachine then m.energyRemained - p.systemLeakage
      else m.energyRemained := ⟨_, rfl⟩
  have hamount : 0 < |p.upperBound - leaked| + 1 := by
    have := abs_nonneg (p.upperBound - leaked)
    linarith
  have hneg : -((|p.upperBound - leaked| + 1) / p.energyProfileMult) < 0 :=
    neg_lt_zero.mpr (div_pos hamount hcap.mult)
  obtain ⟨m', hs, -⟩ := h.consumeEnergy p t (-((|p.upperBound - leaked| + 1) / p.energyProfileMult))
  obtain ⟨he, hsm, -⟩ := consumeEnergy_spec hs
  have hover : p.upperBound < leaked + (|p.upperBound - leaked| + 1) := by
    have := le_abs_self (p.upperBound - leaked)
    linarith
  have hfull : m.energyAfter p (-((|p.upperBound - leaked| + 1) / p.energyProfileMult)) = p.upperBound := by
    unfold energyAfter energyAfterHarvest
    rw [if_neg hneg.not_gt, if_pos hneg, neg_neg, div_mul_cancel₀ _ hcap.mult.ne', hcap.simple, ← hleaked]
    exact if_pos hover
  refine ⟨_, m', hs, he.trans hfull, ?_⟩
  rw [hsm, hfull]
  rfl

theorem exists_next (hcap : Capable p thres) {st : State} (st' : State)
    (hmove : ∀ sm : DfsLry, sm.thres = thres → sm.state = st → (sm.update p.upperBound).1.state = st')
    (h : ∃ m, Reachable p t thres m ∧ m.stateMachine.state = st) :
    ∃ m, Reachable p t thres m ∧ m.stateMachine.state = st' ∧ m.energyRemained = p.upperBound := by
  obtain ⟨m, hreach, hst⟩ := h
  obtain ⟨val, m', hs, he, hsm⟩ := exists_charge hcap hreach.proper.1 t
  refine ⟨m', Reachable.step (a := .consume t val) hreach hs, ?_, he⟩
  rw [hsm]
  exact hmove _ hreach.proper.2 hst

/-- **The highest frequency is reachable, with a full store.** -/
theorem exists_freq5 (hcap : Capable p thres) (t : Tick) :
    ∃ m, Reachable p t thres m ∧ m.stateMachine.state = .freq5 ∧ m.energyRemained = p.upperBound := by
  obtain ⟨m₀, hstart, -, hoff⟩ := start_proper p t thres
  have h₀ : ∃ m, Reachable p t thres m ∧ m.stateMachine.state = .powerOff :=
    ⟨m₀, ⟨m₀, [], hstart, .nil⟩, hoff⟩
  obtain ⟨m₁, hr₁, hst₁, -⟩ := exists_next hcap .freq1 (fun sm hth hst => by
    rw [update_above] <;> simp [rises, hst, hth, hcap.off1, State.above, State.looksUp]) h₀
  obtain ⟨m₂, hr₂, hst₂, -⟩ := exists_next hcap .freq2 (fun sm hth hst => by
    rw [update_above] <;> simp [rises, hst, hth, hcap.freq12, State.above, State.looksUp]) ⟨m₁, hr₁, hst₁⟩
  obtain ⟨m₃, hr₃, hst₃, -⟩ := exists_next hcap .freq3 (fun sm hth hst => by
    rw [update_above] <;> simp [rises, falls, hst, hth, hcap.freq21, hcap.freq23, State.above])
    ⟨m₂, hr₂, hst₂⟩
  obtain ⟨m₄, hr₄, hst₄, -⟩ := exists_next hcap .freq4 (fun sm hth hst => by
    rw [update_above] <;> simp [rises, falls, hst, hth, hcap.freq32, hcap.freq34, State.above])
    ⟨m₃, hr₃, hst₃⟩
  exact exists_next hcap .freq5 (fun sm hth hst => by
    rw [update_above] <;> simp [rises, falls, hst, hth, hcap.freq43, hcap.freq45, State.above])
    ⟨m₄, hr₄, hst₄⟩

/-- **When power-off stays reachable.**  If the lower clamp is low enough for every state, the machine can be switched
    off from every reachable state; and with a supply that can fill the store, only then. -/
theorem powerOff_reachable (p : EnergyMgmtParams) (t : Tick) (thres : Params) :
    ((∀ st, thres.Sinks st) → ∀ m, Reachable p t thres m → CanPowerOff p m) ∧
      (Capable p thres → (∀ m, Reachable p t thres m → CanPowerOff p m) → ∀ st, thres.Sinks st) := by
  constructor
  · intro hsinks m hreach
    exact canPowerOff_of_sinks hsinks p _ rfl hreach.proper.1 hreach.proper.2
  · intro hcap hall st
    by_contra hst
    obtain ⟨m, hreach, hfreq5, he⟩ := exists_freq5 hcap t
    have hfloor : Floor thres st.toNat m := by
      refine ⟨hreach.proper.2, ?_, by rw [he]; exact hcap.lower⟩
      rw [hfreq5]
      cases st <;> decide
    exact hfloor.not_canPowerOff hst hcap.lower (hall m hreach)

/-- A retention band of one half: with `thres_1_to_retention` at 10 and `thres_retention_to_off` at 19/2, the clamp at 9
    is low enough. -/
def narrowThres : Params := { demoThres with thresRetentionToOff := 19 / 2 }

/-- The manager of the runs below: a capacity of 1 and one sample of 1000. -/
def oneSample : EnergyMgmtParams := .default 10 [1000]

theorem narrowThres_sinks : ∀ st, narrowThres.Sinks st := by
  intro st
  cases st <;> decide +kernel

/-- The sample, and a consumption of 1. -/
theorem reachable_spent (thres : Params) (x : DfsLry × Rat) (hrun : ((start oneSample 0 (DfsLry.new thres)
      DfsLry.init).bind fun m => exec (ledgerStep oneSample) m [.consume 0 1]).map
        (fun m => (m.stateMachine, m.energyRemained)) = some x) :
    ∃ m, Reachable oneSample 0 thres m ∧ m.stateMachine = x.1 ∧ m.energyRemained = x.2 := by
  obtain ⟨m, hm, rfl⟩ := map_eq_some_iff.mp hrun
  obtain ⟨m₀, hstart, hexec⟩ := bind_eq_some_iff.mp hm
  exact ⟨m, ⟨m₀, _, hstart, exec_iff.mp hexec⟩, rfl, rfl⟩

/-- The theorem at that band, when the machine is on. -/
theorem powerOff_reachable_narrow : (∀ st, narrowThres.Sinks st) ∧
      ∃ m, Reachable oneSample 0 narrowThres m ∧ m.stateMachine.state = .freq1 ∧ CanPowerOff oneSample m := by
  obtain ⟨m, hreach, hsm, -⟩ := reachable_spent narrowThres (⟨.freq1, narrowThres, true⟩, 999)
    (by decide +kernel)
  exact ⟨narrowThres_sinks, m, hreach, by rw [hsm],
    (powerOff_reachable oneSample 0 narrowThres).1 narrowThres_sinks m hreach⟩

/-- A band from 5 to 10: after the sample and a consumption of 1 the machine is on, and no calls switch it off again. -/
theorem powerOff_not_reachable : demoThres.thresRetentionToOff < demoThres.thres1ToRetention ∧
      ∃ m, Reachable oneSample 0 demoThres m ∧ m.stateMachine.state = .freq1 ∧ ¬ CanPowerOff oneSample m := by
  obtain ⟨m, hreach, hsm, he⟩ := reachable_spent demoThres (⟨.freq1, demoThres, true⟩, 999)
    (by decide +kernel)
  refine ⟨by decide +kernel, m, hreach, by rw [hsm], ?_⟩
  have hst : ¬ demoThres.Sinks .retention := by decide +kernel
  refine Floor.not_canPowerOff hst (by decide +kernel) ⟨by rw [hsm], ?_, ?_⟩
  · rw [hsm]
    decide
  · rw [he]
    decide +kernel

end EnergyMgmt

end NvpSim.Energy
