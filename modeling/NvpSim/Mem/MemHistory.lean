/-
  Histories of one byte, and what makes one linearizable.

  A history is the list of the calls on a `ByteTracker`, each with its tick and the serial of its
  operation.  It is well formed if the ticks increase, serials are handed out in increasing order
  (`MemChecker::nextSerial`), and what completes or aborts is outstanding.  `register` reads it as a
  history of a register: an operation precedes another if it completed before the other started,
  completed operations took effect, an outstanding write may have, and an aborted write did not.
-/
import NvpSim.Lib.Register
import NvpSim.Mem.MemChecker

namespace NvpSim.Mem

open NvpSim.Lib NvpSim.Sim MemEvent List

/-- A read is outstanding. -/
def Reading (past : List MemEvent) (s : Nat) : Prop :=
  (∃ t, startRead s t ∈ past) ∧ ∀ t d, completeRead s t d ∉ past

/-- A write is outstanding. -/
def Writing (past : List MemEvent) (s : Nat) : Prop :=
  (∃ t d, startWrite s t d ∈ past) ∧ (∀ t, completeWrite s t ∉ past) ∧ ∀ t, abortWrite s t ∉ past

/-- What may happen after `past`. -/
def Allowed (past : List MemEvent) (e : MemEvent) : Prop :=
  (∀ e' ∈ past, e'.tick < e.tick) ∧ 0 < e.tick ∧ e.tick ≤ maxTick ∧
    match e with
    | startRead s _ | startWrite s _ _ => ∀ e' ∈ past, e'.serial < s
    | completeRead s _ _ => Reading past s
    | completeWrite s _ | abortWrite s _ => Writing past s

/-- Each event of the rest is allowed after those before it. -/
def WellFormedFrom : List MemEvent → List MemEvent → Prop
  | _, [] => True
  | past, e :: rest => Allowed past e ∧ WellFormedFrom (past ++ [e]) rest

/-- A history in which every call is allowed after those before it. -/
def WellFormed (h : List MemEvent) : Prop := WellFormedFrom [] h

/-! ## The history as one of a register -/

/-- The operation completed at a tick. -/
def Completed (h : List MemEvent) (s t : Nat) : Prop :=
  (∃ d, completeRead s t d ∈ h) ∨ completeWrite s t ∈ h

/-- The operation started at a tick. -/
def Started (h : List MemEvent) (s t : Nat) : Prop :=
  startRead s t ∈ h ∨ ∃ d, startWrite s t d ∈ h

/-- The history of the byte as one of a register. -/
def register (h : List MemEvent) : RegisterHistory Nat Data where
  writes := fun s d => ∃ t, startWrite s t d ∈ h
  reads := fun s d => ∃ t, completeRead s t d ∈ h
  precedes := fun s s' => ∃ t t', Completed h s t ∧ Started h s' t' ∧ t < t'
  must := fun s => ∃ t, Completed h s t
  may := fun s => (∃ t, Completed h s t) ∨ Writing h s

/-- **A history that a byte register explains**, whatever the byte held at first. -/
def LinearizableHistory (h : List MemEvent) : Prop := (register h).Linearizable

/-! ## What well-formedness gives -/

section WellFormed

variable {h past rest : List MemEvent} {e e' : MemEvent} {s t t' : Nat} {d d' : Data}

theorem WellFormedFrom.split {done : List MemEvent} (hw : WellFormedFrom done (past ++ e :: rest)) :
    Allowed (done ++ past) e := by
  induction past generalizing done with
  | nil => rw [append_nil]; exact hw.1
  | cons a past ih =>
    have := ih hw.2
    rwa [append_assoc] at this

theorem WellFormed.allowed (hw : WellFormed (past ++ e :: rest)) : Allowed past e :=
  WellFormedFrom.split hw

/-- Two calls of a history: one of them was allowed after the other. -/
theorem WellFormed.order (hw : WellFormed h) (he : e ∈ h) (he' : e' ∈ h) :
    e = e' ∨ (∃ past, e ∈ past ∧ (∀ a ∈ past, a ∈ h) ∧ Allowed past e') ∨
      ∃ past, e' ∈ past ∧ (∀ a ∈ past, a ∈ h) ∧ Allowed past e := by
  obtain ⟨past, rest, rfl⟩ := append_of_mem he
  rcases mem_append.mp he' with hin | hin
  · exact Or.inr (Or.inr ⟨past, hin, fun a ha => mem_append_left _ ha, hw.allowed⟩)
  rcases mem_cons.mp hin with rfl | hin
  · exact Or.inl rfl
  · obtain ⟨mid, rest', rfl⟩ := append_of_mem hin
    have heq : past ++ e :: (mid ++ e' :: rest') = (past ++ e :: mid) ++ e' :: rest' := by simp
    rw [heq] at hw ⊢
    exact Or.inr (Or.inl ⟨past ++ e :: mid, by simp, fun a ha => mem_append_left _ ha, hw.allowed⟩)

/-- An operation starts once. -/
def isStart : MemEvent → Bool
  | startRead _ _ | startWrite _ _ _ => true
  | _ => false

/-- A start has a new serial, larger than those before. -/
theorem Allowed.serial_lt (ha : Allowed past e) (hs : isStart e = true) : ∀ e' ∈ past, e'.serial < e.serial := by
  obtain ⟨-, -, -, ha⟩ := ha
  cases e with
  | startRead s t | startWrite s t d => exact ha
  | completeRead s t d | completeWrite s t | abortWrite s t => cases hs

section

variable (hw : WellFormed h)

include hw

/-- A serial is started once. -/
theorem WellFormed.start_unique (he : e ∈ h) (he' : e' ∈ h) (hs : isStart e = true)
    (hs' : isStart e' = true) (hserial : e.serial = e'.serial) : e = e' := by
  rcases hw.order he he' with heq | ⟨past, hin, -, ha⟩ | ⟨past, hin, -, ha⟩
  · exact heq
  · have := ha.serial_lt hs' e hin
    omega
  · have := ha.serial_lt hs e' hin
    omega

theorem WellFormed.startRead_unique (he : startRead s t ∈ h) (he' : startRead s t' ∈ h) : t = t' := by
  cases hw.start_unique he he' rfl rfl rfl
  rfl

theorem WellFormed.startWrite_unique (he : startWrite s t d ∈ h) (he' : startWrite s t' d' ∈ h) :
    t = t' ∧ d = d' := by
  cases hw.start_unique he he' rfl rfl rfl
  exact ⟨rfl, rfl⟩

theorem WellFormed.read_not_write (he : startRead s t ∈ h) : startWrite s t' d ∉ h := fun he' => by
  cases hw.start_unique he he' rfl rfl rfl

theorem WellFormed.of_mem (he : e ∈ h) : ∃ past, (∀ a ∈ past, a ∈ h) ∧ Allowed past e := by
  obtain ⟨past, rest, rfl⟩ := append_of_mem he
  exact ⟨past, fun a ha => mem_append_left _ ha, hw.allowed⟩

/-- A read that completes was started before. -/
theorem WellFormed.read_started (he : completeRead s t d ∈ h) : ∃ t₀ < t, startRead s t₀ ∈ h := by
  obtain ⟨past, hsub, hticks, -, -, ⟨t₀, ht₀⟩, -⟩ := hw.of_mem he
  exact ⟨t₀, hticks _ ht₀, hsub _ ht₀⟩

/-- A write that completes was started before. -/
theorem WellFormed.write_started (he : completeWrite s t ∈ h) : ∃ t₀ d, t₀ < t ∧ startWrite s t₀ d ∈ h := by
  obtain ⟨past, hsub, hticks, -, -, ⟨t₀, d, ht₀⟩, -⟩ := hw.of_mem he
  exact ⟨t₀, d, hticks _ ht₀, hsub _ ht₀⟩

theorem WellFormed.completeRead_unique (he : completeRead s t d ∈ h) (he' : completeRead s t' d' ∈ h) :
    t = t' ∧ d = d' := by
  rcases hw.order he he' with heq | ⟨past, hin, -, -, -, -, -, hnot⟩ | ⟨past, hin, -, -, -, -, -, hnot⟩
  · cases heq
    exact ⟨rfl, rfl⟩
  · exact absurd hin (hnot t d)
  · exact absurd hin (hnot t' d')

/-- A write that completes is not aborted. -/
theorem WellFormed.not_aborted (he : completeWrite s t ∈ h) : abortWrite s t' ∉ h := fun he' => by
  rcases hw.order he he' with heq | ⟨past, hin, -, -, -, -, -, hnot, -⟩ | ⟨past, hin, -, -, -, -, -, -, hnot⟩
  · cases heq
  · exact hnot t hin
  · exact hnot t' hin

theorem WellFormed.started_unique (hs : Started h s t) (hs' : Started h s t') : t = t' := by
  rcases hs with hr | ⟨d, hw₁⟩
  · rcases hs' with hr' | ⟨d', hw'⟩
    · exact hw.startRead_unique hr hr'
    · exact absurd hw' (hw.read_not_write hr)
  · rcases hs' with hr' | ⟨d', hw'⟩
    · exact absurd hw₁ (hw.read_not_write hr')
    · exact (hw.startWrite_unique hw₁ hw').1

theorem WellFormed.completed_started (hc : Completed h s t) : ∃ t₀ < t, Started h s t₀ := by
  rcases hc with ⟨d, hr⟩ | hc
  · obtain ⟨t₀, hlt, hs⟩ := hw.read_started hr
    exact ⟨t₀, hlt, Or.inl hs⟩
  · obtain ⟨t₀, d, hlt, hs⟩ := hw.write_started hc
    exact ⟨t₀, hlt, Or.inr ⟨d, hs⟩⟩

/-- **A well-formed history is one of a register**: an operation is a read or a write, a read returns one
    value, and none precedes itself. -/
theorem WellFormed.proper : (register h).Proper where
  reads_only := fun ⟨_, hwrite⟩ ⟨_, hread⟩ => by
    obtain ⟨t₀, -, hs⟩ := hw.read_started hread
    exact hw.read_not_write hs hwrite
  reads_one := fun ⟨_, hr⟩ ⟨_, hr'⟩ => (hw.completeRead_unique hr hr').2
  irrefl := fun s ⟨t, t', hc, hs, hlt⟩ => by
    obtain ⟨t₀, hlt₀, hs₀⟩ := hw.completed_started hc
    have := hw.started_unique hs hs₀
    omega

/-- At one tick there is one call. -/
theorem WellFormed.tick_unique (he : e ∈ h) (he' : e' ∈ h) (htick : e.tick = e'.tick) : e = e' := by
  rcases hw.order he he' with heq | ⟨past, hin, -, ha⟩ | ⟨past, hin, -, ha⟩
  · exact heq
  · have := ha.1 e hin
    omega
  · have := ha.1 e' hin
    omega

end

/-- A call with an earlier tick comes earlier. -/
theorem WellFormed.mem_past (hw : WellFormed (past ++ e :: rest)) (he' : e' ∈ past ++ e :: rest)
    (htick : e'.tick < e.tick) : e' ∈ past := by
  rcases mem_append.mp he' with hin | hin
  · exact hin
  rcases mem_cons.mp hin with rfl | hin
  · exact absurd htick (Nat.lt_irrefl _)
  · obtain ⟨mid, rest', rfl⟩ := append_of_mem hin
    have heq : past ++ e :: (mid ++ e' :: rest') = (past ++ e :: mid) ++ e' :: rest' := by simp
    rw [heq] at hw
    have := hw.allowed.1 e (by simp)
    omega

/-- A write that may have taken effect was not aborted. -/
theorem WellFormed.may_not_aborted (hw : WellFormed h) (hmay : (register h).may s)
    (hs : startWrite s t d ∈ h) : abortWrite s t' ∉ h := by
  rcases hmay with ⟨u, hc⟩ | hout
  · rcases hc with ⟨d', hr⟩ | hc
    · obtain ⟨t₀, -, hs₀⟩ := hw.read_started hr
      exact absurd hs (hw.read_not_write hs₀)
    · exact hw.not_aborted hc
  · exact hout.2.2 t'

end WellFormed

end NvpSim.Mem
