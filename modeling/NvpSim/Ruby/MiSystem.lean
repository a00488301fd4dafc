/-
  The invariant of the MI_example protocol, and that every step keeps it.

  A state of the system `Matches` a view: the phase of each cache, the home of the block with the DMA access
  that is being served, and the phase of each DMA controller.

  The description is in three layers.  `Described` says of one cache what its tables and queues hold in a phase;
  `AtHome` says the same of the directory with its two queues to and from the memory; `Ruled`, of `MiProtocol`,
  says which phases go together, and is all that the caches know of each other.  The log of completed
  accesses is right (`AllRight`): every read has returned the latest value.
-/
import NvpSim.Ruby.MiPhases

namespace NvpSim.Ruby.Mi

open List Option Function

variable {B n k : Nat}

/-! ## Sets of machines -/

/-- The set of the owner, or the empty set. -/
def OwnerIs (n k : Nat) (nd : NetDest) (o : Option Nat) : Prop :=
  NetRep (counts n k) nd fun type => if type = 0 then o.toFinset else ∅

section Owner

variable {nd : NetDest} {o : Option Nat} {i : Nat}

/-- There are few enough machines of each type for the sets to be right. -/
theorem counts_small (hn : n ≤ 32) (hk : k ≤ 32) : ∀ m ∈ counts n k, m ≤ 32 := by
  intro m hm
  simp only [counts, mem_cons, not_mem_nil, or_false] at hm
  omega

theorem caches_count (n k : Nat) : (counts n k)[0]? = some n := rfl

theorem dmas_count (n k : Nat) : (counts n k)[2]? = some k := rfl

theorem ownerIs_none {D : Nat → Finset Nat} (h : NetRep (counts n k) nd D)
    (hD : ∀ type, D type = ∅) : OwnerIs n k nd none := by
  have heq : (fun type : Nat => if type = 0 then (none : Option Nat).toFinset else ∅) = D := by
    funext type
    rw [hD type]
    split <;> rfl
  unfold OwnerIs
  rw [heq]
  exact h

theorem ownerIs_new : OwnerIs n k (.new (counts n k)) none := ownerIs_none (netRep_new _) fun _ => rfl

theorem OwnerIs.clear (h : OwnerIs n k nd o) : OwnerIs n k nd.clear none :=
  ownerIs_none (NetRep.clear h) fun _ => rfl

section

variable (hn : n ≤ 32) (hk : k ≤ 32)

include hn hk

/-- A cache is made the owner. -/
theorem OwnerIs.add (h : OwnerIs n k nd none) (hi : i < n) :
    ∃ nd', nd.add 0 i = some nd' ∧ OwnerIs n k nd' (some i) := by
  obtain ⟨nd', hadd, hrep⟩ := NetRep.add (counts_small hn hk) h (caches_count n k) hi
  refine ⟨nd', hadd, ?_⟩
  have heq : (fun type : Nat => if type = 0 then (some i).toFinset else ∅) =
      update (fun type : Nat => if type = 0 then (none : Option Nat).toFinset else ∅) 0
        (insert i (if 0 = 0 then (none : Option Nat).toFinset else ∅)) := by
    funext type
    by_cases htype : type = 0
    · rw [htype]
      rfl
    · rw [if_neg htype, update_of_ne htype, if_neg htype]
  unfold OwnerIs
  rw [heq]
  exact hrep

/-- The test whether a cache is the owner. -/
theorem OwnerIs.isElement (h : OwnerIs n k nd o) (hi : i < n) :
    nd.isElement 0 i = some (decide (o = some i)) := by
  rw [NetRep.isElement (counts_small hn hk) h (caches_count n k) hi]
  congr 2
  rw [if_pos rfl, mem_toFinset, mem_def]

theorem OwnerIs.carries_iff (h : OwnerIs n k nd o) (hi : i < n) :
    nd.carries (0, i) = true ↔ o = some i := by
  rw [NetRep.carries_iff (counts_small hn hk) h (caches_count n k) hi, if_pos rfl, mem_toFinset, mem_def]

/-- There is at most one owner. -/
theorem OwnerIs.count (h : OwnerIs n k nd o) : nd.count = o.toFinset.card := by
  match nd, h with
  | [a, b, c], ⟨ha, hb, hc, _⟩ =>
    rw [count_eq_sum]
    simp only [map_cons, map_nil, sum_cons, sum_nil]
    rw [ha.count hn, hb.count (by omega), hc.count hk]
    simp

end

end Owner

/-! ## Messages -/

namespace Sys

variable {s : Sys B} {i d : Nat} {nd : NetDest}

section

variable (hn : n ≤ 32) (hk : k ≤ 32)

include hn hk

/-- A message to the owner goes to one cache. -/
theorem toCaches_owner (h : OwnerIs n k nd (some i)) (hi : i < n)
    (f : Node B → Node B) : s.toCaches n nd f = s.atNode i f := by
  unfold toCaches atNode
  congr 1
  funext j
  rw [update_apply]
  by_cases hj : j < n
  · have hiff := OwnerIs.carries_iff hn hk h hj
    by_cases hji : j = i
    · rw [if_pos ⟨hj, hiff.mpr (by rw [hji])⟩, if_pos hji, hji]
    · rw [if_neg (fun hc => hji (some.inj (hiff.mp hc.2)).symm), if_neg hji]
  · rw [if_neg (fun hc => hj hc.1), if_neg (by omega)]

theorem destination_l1Cache (hi : i < n) :
    ∃ nd, destination n k (.l1Cache i) = some nd ∧ OwnerIs n k nd (some i) :=
  ownerIs_new.add hn hk hi

/-- A response to a cache. -/
theorem respond_l1Cache (hi : i < n) (msg : ResponseMsg B) :
    s.respond n k (.l1Cache i, msg) = some (s.atNode i fun c => { c with responses := c.responses ++ [msg] }) := by
  obtain ⟨nd, hnd, howner⟩ := destination_l1Cache hn hk hi
  unfold respond
  rw [hnd, map_some, toCaches_owner hn hk howner hi]

/-- A response to a DMA controller. -/
theorem dmaRespond_dma (hd : d < k) (msg : DmaResponseMsg B) :
    s.dmaRespond n k (.dma d) msg = some (s.atDma d fun c => { c with responses := c.responses ++ [msg] }) := by
  obtain ⟨nd, hnd, hrep⟩ := NetRep.add (counts_small hn hk) (netRep_new (counts n k)) (dmas_count n k) hd
  unfold dmaRespond
  rw [show destination n k (.dma d) = some nd from hnd, map_some]
  congr 1
  unfold toDmas atDma
  congr 1
  funext j
  rw [update_apply]
  by_cases hj : j < k
  · have hiff := NetRep.carries_iff (counts_small hn hk) hrep (dmas_count n k) hj
    rw [update_self, Finset.mem_insert] at hiff
    by_cases hjd : j = d
    · rw [if_pos ⟨hj, hiff.mpr (Or.inl hjd)⟩, if_pos hjd, hjd]
    · rw [if_neg (fun hc => (hiff.mp hc.2).elim hjd (Finset.notMem_empty j)), if_neg hjd]
  · rw [if_neg (fun hc => hj hc.1), if_neg (by omega)]

end

end Sys

/-! ## The memory -/

/-- The memory is asked for the line, or has answered; `ok` is what is known of the line. -/
inductive Reading (ok : Line B → Prop) (id : MachineID) :
    List MemPkt → List (MemoryMsg B) → Line B → Prop where
  | asked {m : Line B} (h : ok m) : Reading ok id [.read id] [] m
  | done {m v : Line B} (h : ok v) : Reading ok id [] [⟨.MEMORY_READ, id, v⟩] m

/-- Data is on its way to the memory, or has been written; `ok` is what is known of the line then. -/
inductive Writing (ok : Line B → Prop) (id : MachineID) :
    List MemPkt → List (MemoryMsg B) → Line B → Prop where
  | asked {m : Line B} {data : List UInt8} (h : ∀ junk, ok (writeLine data junk)) :
      Writing ok id [.write id data] [] m
  | done {m : Line B} (h : ok m) : Writing ok id [] [⟨.MEMORY_WB, id, .zero⟩] m

theorem getData_getElem? (l : Line B) {len j : Nat} (hj : j < len) (offset : Nat) :
    (l.getData offset len)[j]? = some (l.byte (offset + j)) := by
  unfold Line.getData
  rw [getElem?_map, getElem?_range hj]
  rfl

/-- A whole line that is stored is the line, whatever lies behind it. -/
theorem writeLine_getData (l junk : Line B) : writeLine (l.getData 0 B) junk = l := by
  funext j
  unfold writeLine
  rw [getD_eq_getElem?_getD, getData_getElem? l j.isLt, getD_some, Nat.zero_add]
  unfold Line.byte
  rw [dif_pos j.isLt]

/-! ## DMA accesses -/

/-- The line that a DMA request carries. -/
def DmaRequest.line (r : DmaRequest) : Line B :=
  if r.write then Line.zero.setData r.data r.offset else .zero

/-- The message of a DMA request. -/
def DmaRequest.msg (d : Nat) (r : DmaRequest) : DmaRequestMsg B :=
  ⟨r.write, r.offset, .dma d, r.line, r.data.length⟩

/-- A request is within the line; and of the whole line, if it is a write and writes are `full`. -/
structure DmaRequest.Fine (B : Nat) (full : Prop) (r : DmaRequest) : Prop where
  fits : r.offset + r.data.length ≤ B
  whole : full → r.write = true → r.data.length = B

/-- The state of a controller that is busy with a request. -/
def DmaRequest.busy (r : DmaRequest) : DmaState := if r.write then .BUSY_WR else .BUSY_RD

/-- Bytes that are set are read back. -/
theorem getData_setData (l : Line B) {data : List UInt8} {offset : Nat}
    (h : offset + data.length ≤ B) : (l.setData data offset).getData offset data.length = data := by
  refine ext_getElem? ?_
  intro j
  by_cases hj : j < data.length
  · rw [getData_getElem? _ hj, Line.byte, dif_pos (by omega), Line.setData, if_pos (by simp; omega),
      getD_eq_getElem?_getD, getElem?_eq_getElem (by simpa using hj)]
    simp
  · rw [getElem?_eq_none (by rw [Described.getData_length]; omega), getElem?_eq_none (by omega)]

/-- **A DMA write of a whole line** is stored right: only then does the buffer fill the packet. -/
theorem writeLine_whole {r : DmaRequest} (hw : r.write = true) (hlen : r.data.length = B)
    (hfits : r.offset + r.data.length ≤ B) (L junk : Line B) :
    writeLine ((r.line : Line B).getData 0 r.data.length) junk = L.setData r.data r.offset := by
  rw [hlen, writeLine_getData, DmaRequest.line, if_pos hw]
  funext j
  unfold Line.setData
  rw [if_pos (by omega), if_pos (by omega)]

/-- The phases of a DMA controller. -/
inductive DmaPhase where
  | ready
  | queued (r : DmaRequest)
  | asked (r : DmaRequest)
  | served (r : DmaRequest)
  | answered (r : DmaRequest)
  deriving DecidableEq, Repr

/-- What a DMA controller looks like in a phase.  When it is answered, its write is done. -/
inductive DmaDescribed (full : Prop) (log : List Done) (d : Nat) : DmaPhase → DmaNode B → Prop where
  | ready : DmaDescribed full log d .ready ⟨.READY, none, [], [], []⟩
  | queued {r : DmaRequest} (hr : r.Fine B full) :
      DmaDescribed full log d (.queued r) ⟨.READY, some r, [r.msg d], [], []⟩
  | asked {r : DmaRequest} (hr : r.Fine B full) :
      DmaDescribed full log d (.asked r) ⟨r.busy, some r, [], [r.msg d], []⟩
  | served {r : DmaRequest} (hr : r.Fine B full) :
      DmaDescribed full log d (.served r) ⟨r.busy, some r, [], [], []⟩
  | answeredData {r : DmaRequest} {v : Line B} (hr : r.Fine B full) (hw : r.write = false) :
      DmaDescribed full log d (.answered r) ⟨r.busy, some r, [], [], [.DATA v]⟩
  | answeredAck {r : DmaRequest} (hr : r.Fine B full) (hw : r.write = true)
      (hlog : .dmaWritten d r.offset r.data ∈ log) :
      DmaDescribed full log d (.answered r) ⟨r.busy, some r, [], [], [.ACK]⟩

/-- A longer log does not matter to a DMA controller. -/
theorem DmaDescribed.mono {full : Prop} {log log' : List Done} {d : Nat} {p : DmaPhase} {c : DmaNode B}
    (h : DmaDescribed full log d p c) : DmaDescribed full (log ++ log') d p c := by
  cases h with
  | ready => exact .ready
  | queued hr => exact .queued hr
  | asked hr => exact .asked hr
  | served hr => exact .served hr
  | answeredData hr hw => exact .answeredData hr hw
  | answeredAck hr hw hlog => exact .answeredAck hr hw (mem_append_left _ hlog)

/-! ## The invariant -/

/-- The directory with its memory queues and the memory, for each home of the block: and the DMA access that is
    being served. -/
inductive AtHome (n k : Nat) (full : Prop) (L : Line B) : Home → Option (Nat × DmaRequest) →
    Directory B → List MemPkt → List (MemoryMsg B) → Line B → Prop where
  | free {owner : NetDest} {m : Line B} (ho : OwnerIs n k owner none) (hm : full → m = L) :
      AtHome n k full L .free none ⟨.I, owner, none⟩ [] [] m
  | dmaReading {owner : NetDest} {d : Nat} {r : DmaRequest} {m : Line B} {q : List MemPkt}
      {a : List (MemoryMsg B)} (ho : OwnerIs n k owner none) (hm : full → m = L) (hr : r.write = false)
      (h : Reading (fun _ => True) (.dma d) q a m) :
      AtHome n k full L .free (some (d, r)) ⟨.ID, owner, some ⟨.ID, 0, .zero, 0, some (.dma d)⟩⟩ q a m
  | dmaWriting {owner : NetDest} {d : Nat} {r : DmaRequest} {m : Line B} {q : List MemPkt}
      {a : List (MemoryMsg B)} (ho : OwnerIs n k owner none) (hr : r.write = true)
      (h : Writing (fun x => full → x = L.setData r.data r.offset) (.dma d) q a m) :
      AtHome n k full L .free (some (d, r))
        ⟨.ID_W, owner, some ⟨.ID_W, r.offset, r.line, r.data.length, some (.dma d)⟩⟩ q a m
  | fetching {owner : NetDest} {o : Nat} {m : Line B} {q : List MemPkt} {a : List (MemoryMsg B)}
      (ho : OwnerIs n k owner (some o)) (h : Reading (fun x => full → x = L) (.l1Cache o) q a m) :
      AtHome n k full L (.fetching o) none ⟨.IM, owner, none⟩ q a m
  | owned {owner : NetDest} {o : Nat} {m : Line B} (ho : OwnerIs n k owner (some o)) :
      AtHome n k full L (.owned o) none ⟨.M, owner, none⟩ [] [] m
  | storing {owner : NetDest} {i : Nat} {m v : Line B} {q : List MemPkt} {a : List (MemoryMsg B)}
      (ho : OwnerIs n k owner none) (h : Writing (fun x => full → x = L) (.l1Cache i) q a m) :
      AtHome n k full L (.storing i) none ⟨.MI, owner, some ⟨.MI, 0, v, 0, none⟩⟩ q a m
  | recallingRead {owner : NetDest} {o d : Nat} {r : DmaRequest} {m : Line B}
      (ho : OwnerIs n k owner (some o)) (hr : r.write = false) :
      AtHome n k full L (.recalling o) (some (d, r))
        ⟨.M_DRD, owner, some ⟨.M_DRD, r.offset, r.line, r.data.length, some (.dma d)⟩⟩ [] [] m
  | recallingWrite {owner : NetDest} {o d : Nat} {r : DmaRequest} {m : Line B}
      (ho : OwnerIs n k owner (some o)) (hr : r.write = true) :
      AtHome n k full L (.recalling o) (some (d, r))
        ⟨.M_DWR, owner, some ⟨.M_DWR, r.offset, r.line, r.data.length, some (.dma d)⟩⟩ [] [] m
  | recalledRead {owner : NetDest} {i : Nat} {tbe : DirTBE B} {m : Line B} {q : List MemPkt}
      {a : List (MemoryMsg B)} (ho : OwnerIs n k owner none) (htbe : tbe.state = .M_DRDI)
      (h : Writing (fun x => full → x = L) (.l1Cache i) q a m) :
      AtHome n k full L (.recalled i) none ⟨.M_DRDI, owner, some tbe⟩ q a m
  | recalledWrite {owner : NetDest} {i d : Nat} {r : DmaRequest} {m : Line B} {q : List MemPkt}
      {a : List (MemoryMsg B)} (ho : OwnerIs n k owner none) (hr : r.write = true)
      (h : Writing (fun x => full → x = L.setData r.data r.offset) (.l1Cache i) q a m) :
      AtHome n k full L (.recalled i) (some (d, r))
        ⟨.M_DWRI, owner, some ⟨.M_DWRI, r.offset, r.line, r.data.length, some (.dma d)⟩⟩ q a m

/-- Every read so far returned the latest value. -/
def AllRight (L : Line B) : List Done → Prop
  | [] => True
  | e :: log => e.Right L ∧ AllRight (e.apply L) log

theorem allRight_append {L : Line B} {log log' : List Done} :
    AllRight L (log ++ log') ↔ AllRight L log ∧ AllRight (latest L log) log' := by
  induction log generalizing L with
  | nil => exact ⟨fun h => ⟨trivial, h⟩, fun h => h.2⟩
  | cons e log ih =>
    show e.Right L ∧ AllRight (e.apply L) (log ++ log') ↔ (e.Right L ∧ AllRight (e.apply L) log) ∧ _
    rw [ih, and_assoc]
    rfl

/-- The phases of all machines. -/
structure View where
  phase : Nat → Phase
  home : Home
  serving : Option (Nat × DmaRequest)
  dma : Nat → DmaPhase

/-- A state of the system is as a view says. -/
structure Matches (n k : Nat) (full : Prop) (L₀ : Line B) (s : Sys B) (v : View) : Prop where
  nodes : ∀ i, Described full (latest L₀ s.log) i (v.phase i) (s.nodes i)
  ruled : Ruled n (fun i => (v.phase i).role) v.home
  atHome : AtHome n k full (latest L₀ s.log) v.home v.serving s.dir s.toMemory s.fromMemory s.memory
  dmas : ∀ d, DmaDescribed full s.log d (v.dma d) (s.dmas d)
  served : ∀ d r, v.dma d = .served r ↔ v.serving = some (d, r)
  bounded : ∀ d, v.dma d ≠ .ready → d < k
  log : full → AllRight L₀ s.log

/-- **At the start** no cache has the block. -/
theorem matches_init (full : Prop) (L₀ : Line B) :
    Matches n k full L₀ (Sys.init n k L₀) ⟨fun _ => .idle, .free, none, fun _ => .ready⟩ where
  nodes := fun i => .idle (by intro e he; cases he) .none
  ruled := Ruled.init
  atHome := .free ownerIs_new fun _ => rfl
  dmas := fun d => .ready
  served := by
    intro d r
    exact ⟨nofun, nofun⟩
  bounded := fun d h => absurd rfl h
  log := fun _ => trivial

end NvpSim.Ruby.Mi
