/-
  Copying out of a packet FIFO (`PacketFifo::copyout` of `dev/pktfifo.cc`).

  The test at the start turns the whole contents down, and neither the packet nor the place in it follows the
  OFFSET: a copy that does not start at the first byte is right only if other bytes happen to be the same.

  Both loops are given in closed form.  The inner one divides the offset by the length of the FIRST packet
  (`skipPackets_eq`), whatever the lengths of the packets that it skips; the outer one takes the start of that
  packet, and after it the packets that follow the iterator (`copied`, `copyLoop_eq`).
-/
import Mathlib.Algebra.Ring.Nat

namespace NvpSim.Dev

open List

/-- The inner loop: the length it takes off stays that of the packet it began with.  `none`: the iterator runs
    past the end. -/
def skipPackets (length : Nat) : Nat → List (List UInt8) → Option (Nat × List (List UInt8))
  | offset, [] => if offset < length then some (offset, []) else none
  | offset, pkt :: i =>
    if offset < length then some (offset, pkt :: i) else skipPackets length (offset - length) i

/-- The outer loop, from the packet at an iterator; at most one round for each packet. -/
def copyLoop : Nat → List (List UInt8) → Nat → Nat → Option (List UInt8)
  | _, _, _, 0 => some []
  | fuel + 1, pkt :: i, offset, len =>
    match skipPackets pkt.length offset (pkt :: i) with
    | some (offset, _ :: i) =>
      let size := min (pkt.length - offset) len
      (copyLoop fuel i 0 (len - size)).map (pkt.take size ++ ·)
    | _ => none
  | _, _, _, _ => none

/-- `copyout`: the bytes in `dest`, or `none` inside if it returns false; the `fifo` holds `size()` bytes. -/
def copyout (fifo : List (List UInt8)) (offset len : Nat) : Option (Option (List UInt8)) :=
  if fifo.flatten.length ≤ (offset + len) % 2 ^ 32 then some none
  else (copyLoop fifo.length fifo offset len).map some

section

variable {pkt : List UInt8} {i fifo : List (List UInt8)} {offset len fuel : Nat}

theorem skipPackets_eq {length : Nat} (hpos : 0 < length) : skipPackets length offset fifo =
    if offset / length ≤ fifo.length then some (offset % length, fifo.drop (offset / length)) else none := by
  induction fifo generalizing offset with
  | nil =>
    unfold skipPackets
    by_cases hlt : offset < length
    · simp [hlt, Nat.mod_eq_of_lt]
    · have hdiv := Nat.div_pos (Nat.le_of_not_lt hlt) hpos
      rw [if_neg hlt, if_neg (by rw [length_nil]; omega)]
  | cons pkt i ih =>
    unfold skipPackets
    by_cases hlt : offset < length
    · simp [hlt, Nat.mod_eq_of_lt, Nat.div_eq_of_lt]
    · have hdiv := Nat.div_eq_sub_div hpos (Nat.le_of_not_lt hlt)
      rw [if_neg hlt, ih, hdiv, Nat.mod_eq_sub_mod (Nat.le_of_not_lt hlt)]
      simp

/-- From the start of a packet the loop copies what there is. -/
theorem copyLoop_zero (hpos : ∀ pkt ∈ fifo, pkt ≠ []) (hfuel : fifo.length ≤ fuel) : copyLoop fuel fifo 0 len =
    if len ≤ fifo.flatten.length then some (fifo.flatten.take len) else none := by
  induction fifo generalizing len fuel with
  | nil => cases len <;> cases fuel <;> simp [copyLoop]
  | cons pkt i ih =>
    obtain ⟨hpkt, hi⟩ := forall_mem_cons.mp hpos
    have hskip : skipPackets pkt.length 0 (pkt :: i) = some (0, pkt :: i) :=
      if_pos (length_pos_iff.mpr hpkt)
    obtain ⟨fuel, rfl⟩ := Nat.exists_eq_add_of_le' (Nat.lt_of_lt_of_le (Nat.zero_lt_succ _) hfuel)
    cases len with
    | zero => simp [copyLoop]
    | succ len =>
      have hrest : len + 1 - min pkt.length (len + 1) = len + 1 - pkt.length := by omega
      have htake : pkt.take (min pkt.length (len + 1)) = pkt.take (len + 1) := by simp [Nat.min_comm]
      have hle : len + 1 - pkt.length ≤ i.flatten.length ↔ len + 1 ≤ (pkt :: i).flatten.length := by
        rw [flatten_cons, length_append]
        omega
      simp only [copyLoop, hskip, Nat.sub_zero, hrest, htake, ih hi (Nat.le_of_succ_le_succ hfuel), hle]
      split
      · rw [flatten_cons, take_append, Option.map_some]
      · rfl

/-- What is copied from an offset on: the START of the first packet, as much of it as the last round of the
    inner loop leaves, and then the packets after the one that the iterator has come to. -/
def copied (pkt : List UInt8) (i : List (List UInt8)) (offset : Nat) : List UInt8 :=
  pkt.take (pkt.length - offset % pkt.length) ++ (i.drop (offset / pkt.length)).flatten

theorem copyLoop_eq (hpos : ∀ q ∈ pkt :: i, q ≠ []) (hlen : 0 < len) :
    copyLoop (i.length + 1) (pkt :: i) offset len =
      if offset / pkt.length ≤ i.length ∧ len ≤ (copied pkt i offset).length
      then some ((copied pkt i offset).take len) else none := by
  obtain ⟨hpkt, hi⟩ := forall_mem_cons.mp hpos
  have hpkt' : 0 < pkt.length := length_pos_iff.mpr hpkt
  rw [copyLoop.eq_2 _ _ _ _ _ (by omega), skipPackets_eq hpkt']
  by_cases hk : offset / pkt.length ≤ i.length
  · have hdrop : ∃ q, (pkt :: i).drop (offset / pkt.length) = q :: i.drop (offset / pkt.length) := by
      rw [drop_eq_getElem_cons (by rw [length_cons]; omega), drop_succ_cons]
      exact ⟨_, rfl⟩
    obtain ⟨q, hq⟩ := hdrop
    have hmod := Nat.mod_lt offset hpkt'
    have hrest : ∀ p ∈ i.drop (offset / pkt.length), p ≠ [] := fun p hp => hi p (mem_of_mem_drop hp)
    rw [if_pos (by rw [length_cons]; omega), hq]
    dsimp only
    rw [copyLoop_zero hrest (length_drop ▸ Nat.sub_le ..)]
    have hcopied : (copied pkt i offset).length =
        pkt.length - offset % pkt.length + (i.drop (offset / pkt.length)).flatten.length := by
      rw [copied, length_append, length_take]
      omega
    by_cases hl : len ≤ (copied pkt i offset).length
    · rw [if_pos (by omega), if_pos ⟨hk, hl⟩, Option.map_some, copied, take_append, take_take, length_take,
        Nat.min_eq_left (Nat.sub_le ..), Nat.min_comm]
      congr 3
      omega
    · rw [if_neg (by omega), if_neg fun h => hl h.2, Option.map_none]
  · rw [if_neg (c := _ ∧ _) fun h => hk h.1]
    by_cases heq : offset / pkt.length ≤ (pkt :: i).length
    · rw [if_pos heq, drop_eq_nil_of_le (by rw [length_cons]; omega)]
    · rw [if_neg heq]

end

/-- The bytes that a copy takes are those of the queue from the offset on. -/
def Reads (offset len : Nat) : List (List UInt8) → Prop
  | [] => False
  | pkt :: i => offset / pkt.length ≤ i.length ∧ len ≤ (copied pkt i offset).length ∧
      (copied pkt i offset).take len = ((pkt :: i).flatten.drop offset).take len

end NvpSim.Dev
