/-
  The flags of the status byte: is a device ever BUSY and IDLE at once?

  After the first POWER_OFF exactly one of CHAOS and READY is set, BUSY and IDLE are never set together, and a
  READY device that is not BUSY is IDLE (`Exclusive`).  Every branch keeps that but one: when the initialisation
  that follows a power failure completes, `triggerInterrupt` sets IDLE, and if a task is to be restarted
  (`delay_remained` is positive) it sets BUSY again and leaves IDLE set.
-/
import NvpSim.Vdev.OneEvent

namespace NvpSim.Vdev

open NvpSim.Sim NvpSim.Lib NvpSim.Energy Option

/-- The flags exclude each other. -/
structure Exclusive (d : VirtualDevice) : Prop where
  busyIdle : ¬ (d.has .busy = true ∧ d.has .idle = true)
  chaosReady : d.has .chaos = !d.has .ready
  readyIdle : d.has .ready = true → d.has .busy = false → d.has .idle = true

/-- What every step keeps: moreover, an uninitialised device is not IDLE. -/
structure Kept (d : VirtualDevice) : Prop extends Exclusive d where
  chaosIdle : d.has .chaos = true → d.has .idle = false

namespace Sys

/-- No event fires on an uninitialised device that has a task to restart. -/
def NoResume (s : Sys) : Label → Prop
  | .fireInit _ | .fireInterrupt _ => ¬ (s.dev.has .chaos = true ∧ 0 < s.dev.delayRemained)
  | .powerOff _ | .powerOn _ | .access _ _ => True

instance (s : Sys) (l : Label) : Decidable (s.NoResume l) :=
  match l with
  | .fireInit _ | .fireInterrupt _ => inferInstanceAs (Decidable (¬ _))
  | .powerOff _ | .powerOn _ | .access _ _ => isTrue trivial

end Sys

namespace VirtualDevice

variable {p : VirtualDeviceParams} {t : Tick} {d d' : VirtualDevice}

/-! ## What each entry point does to the byte -/

theorem kept_of_has (h : Kept d) (hsame : ∀ f, d'.has f = d.has f) : Kept d' := by
  obtain ⟨⟨hbusy, hone, hidle⟩, hchaos⟩ := h
  refine ⟨⟨?_, ?_, ?_⟩, ?_⟩
  · rw [hsame, hsame]; exact hbusy
  · rw [hsame, hsame]; exact hone
  · rw [hsame, hsame, hsame]; exact hidle
  · rw [hsame, hsame]; exact hchaos

theorem powerOff_kept (h : d.powerOff p t = some d') : Kept d' := by
  obtain ⟨d₁, -, rfl⟩ := map_eq_some_iff.mp h
  refine ⟨⟨?_, ?_, ?_⟩, ?_⟩ <;> simp [resetStatus]

theorem powerOn_kept (hd : Kept d) (hchaos : d.has .chaos = true) (h : d.powerOn p t = some d') : Kept d' := by
  have hidle := hd.chaosIdle hchaos
  have hready : d.has .ready = false := by
    have := hd.chaosReady
    rw [hchaos] at this
    simpa using this
  unfold powerOn at h
  split at h
  · obtain ⟨e, -, rfl⟩ := map_eq_some_iff.mp h
    refine ⟨⟨?_, ?_, ?_⟩, ?_⟩ <;> simp [hidle, hready, hchaos]
  · cases h
    refine ⟨⟨?_, ?_, ?_⟩, ?_⟩ <;> simp [hidle, hready, hchaos]

theorem kept_busy (hd : Kept d) (hflags : ∀ f, d'.has f = ((d.set .busy).clear .idle).has f) : Kept d' := by
  have hone := hd.chaosReady
  refine ⟨⟨?_, ?_, ?_⟩, ?_⟩ <;> simp [hflags, hone]

theorem access_kept (hd : Kept d) {pkt : Packet} {data : List (BitVec 8)}
    (h : d.access p t pkt = some (d', data)) : Kept d' := by
  cases accessed h with
  | other _ hflags => exact kept_of_has hd hflags
  | init _ _ hflags | activate _ _ _ hflags => exact kept_busy hd hflags

/-- **An event that fires**: the flags exclude each other afterwards unless a task is restarted. -/
theorem triggerInterrupt_kept (hd : Kept d)
    (hno : ¬ (d.has .chaos = true ∧ 0 < d.delayRemained)) (h : d.triggerInterrupt p t = some d') : Kept d' := by
  have hone := hd.chaosReady
  obtain ⟨-, h⟩ := ite_none_right_eq_some.mp h
  dsimp only at h
  split at h
  · -- the initialisation is complete
    rename_i hchaos
    have hchaos' : d.has .chaos = true := by simpa using hchaos
    unfold initReturn at h
    dsimp only at h
    split at h
    · rename_i hpos
      exact absurd ⟨hchaos', by simpa using hpos⟩ hno
    · cases h
      refine ⟨⟨?_, ?_, ?_⟩, ?_⟩ <;> simp
  · -- the task is complete
    rename_i hchaos
    have hchaos' : d.has .chaos = false := by simpa using hchaos
    cases h
    unfold actuationReturn
    refine ⟨⟨?_, ?_, ?_⟩, ?_⟩ <;> simp [hchaos', hone.symm]

theorem triggerInterrupt_resume (h : d.triggerInterrupt p t = some d')
    (hchaos : d.has .chaos = true) (hpos : 0 < d.delayRemained) : d'.has .busy = true ∧ d'.has .idle = true := by
  obtain ⟨-, h⟩ := ite_none_right_eq_some.mp h
  rw [if_pos (by simp [hchaos])] at h
  unfold initReturn at h
  rw [if_pos (by simpa using hpos)] at h
  obtain ⟨e, -, rfl⟩ := map_eq_some_iff.mp h
  constructor <;> simp

theorem triggerInterrupt_busy (h : d.triggerInterrupt p t = some d') : d.has .busy = true := by
  obtain ⟨hbusy, h⟩ := ite_none_right_eq_some.mp h
  exact hbusy

end VirtualDevice

/-! ## Runs -/

namespace Sys

variable {p : VirtualDeviceParams} {s s' : Sys} {l : Label}

/-- What holds in every state after the first POWER_OFF; without power the device is uninitialised and does nothing. -/
structure Flagged (s : Sys) : Prop where
  kept : Kept s.dev
  off : s.power = .off → s.dev.has .chaos = true ∧ s.dev.has .busy = false

theorem flagged_powerOff {t : Tick} (hs : s.step p (.powerOff t) = some s') : s'.Flagged := by
  obtain ⟨r, hr, rfl⟩ := map_eq_some_iff.mp hs
  obtain ⟨d', hd', rfl⟩ := map_eq_some_iff.mp hr
  refine ⟨VirtualDevice.powerOff_kept hd', fun _ => ?_⟩
  obtain ⟨d₁, -, rfl⟩ := map_eq_some_iff.mp hd'
  simp [VirtualDevice.resetStatus]

theorem Flagged.fire (h : s.Flagged) {d d' : VirtualDevice} {t : Tick}
    (hs : d.triggerInterrupt p t = some d') (hflags : ∀ f, d.has f = s.dev.has f)
    (hremained : d.delayRemained = s.dev.delayRemained)
    (hno : ¬ (s.dev.has .chaos = true ∧ 0 < s.dev.delayRemained)) : Kept d' ∧ s.power ≠ .off := by
  constructor
  · exact VirtualDevice.triggerInterrupt_kept (VirtualDevice.kept_of_has h.kept hflags)
      (by rw [hflags, hremained]; exact hno) hs
  · intro hoff
    have hbusy := VirtualDevice.triggerInterrupt_busy hs
    rw [hflags, (h.off hoff).2] at hbusy
    cases hbusy

/-- **One step.** -/
theorem Flagged.step (h : s.Flagged) (hleg : s.Legal p l) (hno : s.NoResume l)
    (hs : s.step p l = some s') : s'.Flagged := by
  cases l with
  | powerOff t => exact flagged_powerOff hs
  | powerOn t =>
    obtain ⟨r, hr, rfl⟩ := map_eq_some_iff.mp hs
    obtain ⟨d', hd', rfl⟩ := map_eq_some_iff.mp hr
    exact ⟨VirtualDevice.powerOn_kept h.kept (h.off hleg.2).1 hd', nofun⟩
  | access t pkt =>
    obtain ⟨⟨d', data⟩, hr, rfl⟩ := map_eq_some_iff.mp hs
    refine ⟨VirtualDevice.access_kept h.kept hr, fun hoff => ?_⟩
    cases hleg.2.1.symm.trans hoff
  | fireInit t | fireInterrupt t =>
    obtain ⟨d', hd', rfl⟩ := map_eq_some_iff.mp hs
    obtain ⟨hkept, hon⟩ := h.fire hd' (VirtualDevice.has_of_byte rfl) rfl hno
    exact ⟨hkept, fun hoff => absurd hoff hon⟩

theorem legal_boot (h : Sys.boot.Legal p l) : ∃ t, l = .powerOff t := by
  cases l with
  | powerOff t => exact ⟨t, rfl⟩
  | powerOn t => cases h.2
  | access t pkt | fireInit t | fireInterrupt t => cases h.2.1

theorem flagged_of_run {ls : List Label}
    (h : Run (Guarded (stepOf (Sys.step p)) fun s l => s.Legal p l ∧ s.NoResume l) .boot ls s) :
    (ls = [] ∧ s = .boot) ∨ s.Flagged := by
  refine h.inv_hist (P := fun ls s => (ls = [] ∧ s = .boot) ∨ s.Flagged) ?_ (Or.inl ⟨rfl, rfl⟩)
  rintro ls s l s' hinv ⟨hs, hleg, hno⟩
  refine Or.inr ?_
  rcases hinv with ⟨-, rfl⟩ | hinv
  · obtain ⟨t, rfl⟩ := legal_boot hleg
    exact flagged_powerOff hs
  · exact hinv.step hleg hno hs

end Sys

/-- **The flags exclude each other as long as no task is restarted.**  In every state of such a run after the first
    POWER_OFF they do; and a next legal step keeps them apart if and only if it does not restart a task. -/
theorem status_flags_exclusive (p : VirtualDeviceParams) {ls : List Label} {s : Sys} (hne : ls ≠ [])
    (h : Run (Guarded (stepOf (Sys.step p)) fun s l => s.Legal p l ∧ s.NoResume l) .boot ls s) :
    Exclusive s.dev ∧ ∀ l s', s.Legal p l → s.step p l = some s' → (Exclusive s'.dev ↔ s.NoResume l) := by
  have hflagged : s.Flagged := (Sys.flagged_of_run h).resolve_left fun hnil => hne hnil.1
  refine ⟨hflagged.kept.toExclusive, fun l s' hleg hs => ⟨?_, ?_⟩⟩
  · intro hex
    cases l with
    | powerOff t | powerOn t | access t pkt => trivial
    | fireInit t | fireInterrupt t =>
      obtain ⟨d', hd', rfl⟩ := map_eq_some_iff.mp hs
      rintro ⟨hchaos, hpos⟩
      exact hex.busyIdle (VirtualDevice.triggerInterrupt_resume hd'
        ((VirtualDevice.has_of_byte rfl _).trans hchaos) hpos)
  · intro hno
    exact (hflagged.step hleg hno hs).kept.toExclusive

/-- A power failure while the device is idle: it is initialised again, and nothing is restarted. -/
def idleFailure : List Label :=
  [.powerOff 0, .powerOn 0, .access 1 writeInit, .fireInit 6, .powerOff 8, .powerOn 9, .fireInit 14]

theorem status_flags_exclusive_idle_failure : idleFailure ≠ [] ∧ ∃ s, exec (guardFn (Sys.step demoParams)
        fun s l => s.Legal demoParams l ∧ s.NoResume l) .boot idleFailure = some s ∧
      s.dev.has .ready = true ∧ Exclusive s.dev := by
  have hne : idleFailure ≠ [] := by decide
  refine ⟨hne, exec_observe (fun s => s.dev.has .ready) true (by decide +kernel) fun s hs hready => ?_⟩
  exact ⟨hready, (status_flags_exclusive demoParams hne (exec_guardFn_iff.mp hs)).1⟩

/-- **Where it fails**: a power failure in the middle of a task.  When the device has been initialised again and the
    task restarts, it is BUSY and IDLE. -/
theorem resumed_task_busy_and_idle : ∃ s, Run (Guarded (stepOf (Sys.step demoParams)) (Sys.Legal demoParams)) .boot
        [.powerOff 0, .powerOn 0, .access 1 writeInit, .fireInit 6, .access 7 writeActivate,
          .powerOff 8, .powerOn 9, .fireInit 14] s ∧
      s.dev.has .busy = true ∧ s.dev.has .idle = true ∧ ¬ Exclusive s.dev := by
  refine run_observe (fun s => (s.dev.has .busy, s.dev.has .idle))
    (true, true) (by decide +kernel) fun s hs hobs => ?_
  obtain ⟨hbusy, hidle⟩ := Prod.mk.inj hobs
  exact ⟨hbusy, hidle, fun hex => hex.busyIdle ⟨hbusy, hidle⟩⟩

end NvpSim.Vdev
