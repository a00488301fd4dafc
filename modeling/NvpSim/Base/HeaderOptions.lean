/-
  The options of an IP or TCP header (`IpHdr::options`, `TcpHdr::options` of `base/inet.cc`).

  The loop takes the length of each option from the packet: one byte for EOL and NOP, and else what the second
  byte of the option says.  It stops at an option that is longer than what is left, but an option whose length
  byte is 0 is collected AGAIN AND AGAIN: the loop does not move past it.

  So the loop ends exactly if no option that it comes to has the length 0, and then every turn takes at least one
  byte of the header, and the options that it returns lie one after the other in it (`Tiled`).
-/
import NvpSim.Base.Bitfield

namespace NvpSim.Base

/-- `opt->len()` of the option at an address: `EOL` and `NOP` have no length byte. -/
def optLen (bytes : Nat → UInt8) (data : Nat) : Nat :=
  if bytes data = 0 ∨ bytes data = 1 then 1 else (bytes (data + 1)).toNat

/-- The loop of `options`: what it returns, and the addresses of the options it has collected. -/
def collectOptions (bytes : Nat → UInt8) : Nat → Int → Nat → Option (Bool × List Nat)
  | 0, _, _ => none
  | fuel + 1, all, data =>
    if 0 < all then
      if all < optLen bytes data then some (false, [])
      else (collectOptions bytes fuel (all - optLen bytes data) (data + optLen bytes data)).map
        (Prod.map id (data :: ·))
    else some (true, [])

/-- The two headers; both have 20 bytes before their options. -/
inductive Hdr where
  | ip
  | tcp

/-- `hlen()` of an IP header, `off()` of a TCP header: four bits that count words. -/
def Hdr.hlen (bytes : Nat → UInt8) : Hdr → Nat
  | .ip => (bytes 0).toNat % 16 * 4
  | .tcp => (bytes 12).toNat / 16 * 4

/-- `IpHdr::options` and `TcpHdr::options`. -/
def Hdr.options (hdr : Hdr) (bytes : Nat → UInt8) (fuel : Nat) : Option (Bool × List Nat) :=
  collectOptions bytes fuel ((hdr.hlen bytes : Int) - 20) 20

/-- The addresses at which the loop looks for an option of a header of `size` bytes. -/
inductive OptionAt (bytes : Nat → UInt8) (size : Nat) : Nat → Prop
  | first : 20 < size → OptionAt bytes size 20
  | next {data} : OptionAt bytes size data → data + optLen bytes data < size →
      OptionAt bytes size (data + optLen bytes data)

/-- The options lie one after the other in the header. -/
def Tiled (bytes : Nat → UInt8) (size : Nat) : Nat → List Nat → Prop
  | _, [] => True
  | data, opt :: vec => opt = data ∧ data + optLen bytes data ≤ size ∧
      Tiled bytes size (data + optLen bytes data) vec

variable {bytes : Nat → UInt8} {size data : Nat}

/-- **The loop ends** with fuel for the bytes that are left: every option takes at least one of them. -/
theorem collectOptions_tiled {fuel : Nat} {all : Int}
    (hpos : ∀ data, OptionAt bytes size data → 0 < optLen bytes data) (hall : all + data = size)
    (hat : 0 < all → OptionAt bytes size data) (hfuel : all < fuel) (h0 : 0 < fuel) :
    ∃ ok vec, collectOptions bytes fuel all data = some (ok, vec) ∧ Tiled bytes size data vec := by
  induction fuel generalizing all data with
  | zero => omega
  | succ fuel ih =>
    rw [collectOptions]
    split_ifs with hlt hshort
    · exact ⟨_, _, rfl, trivial⟩
    · have hlen := hpos data (hat hlt)
      have hnext : 0 < all - optLen bytes data → OptionAt bytes size (data + optLen bytes data) :=
        fun h => .next (hat hlt) (by omega)
      obtain ⟨ok, vec, hrun, htiled⟩ := ih (by push_cast; omega) hnext (by omega) (by omega)
      exact ⟨ok, data :: vec, by rw [hrun]; rfl, rfl, by omega, htiled⟩
    · exact ⟨_, _, rfl, trivial⟩

theorem OptionAt.lt (h : OptionAt bytes size data) : data < size := by
  cases h with
  | first hlt | next _ hlt => exact hlt

/-- The loop stays at an option of length 0. -/
theorem collectOptions_stays (hzero : optLen bytes data = 0) {all : Int} (hall : 0 < all) (fuel : Nat) :
    collectOptions bytes fuel all data = none := by
  induction fuel with
  | zero => rfl
  | succ fuel ih =>
    rw [collectOptions, if_pos hall, hzero, if_neg (by omega), Nat.add_zero, Int.natCast_zero, Int.sub_zero, ih]
    rfl

/-- **The loop does not end** if it does not end from an option that it comes to. -/
theorem collectOptions_endless (hat : OptionAt bytes size data)
    (hend : ∀ fuel, collectOptions bytes fuel ((size : Int) - data) data = none) (fuel : Nat) :
    collectOptions bytes fuel ((size : Int) - 20) 20 = none := by
  induction hat generalizing fuel with
  | first => exact hend fuel
  | @next data hat hlt ih =>
    refine ih (fun fuel => ?_) fuel
    have hrest : (size : Int) - data - optLen bytes data = (size : Int) - (data + optLen bytes data : Nat) := by
      push_cast
      omega
    cases fuel with
    | zero => rfl
    | succ fuel =>
      rw [collectOptions, if_pos (by have := hat.lt; omega), if_neg (by omega), hrest, hend fuel]
      rfl

/-- **The options are collected, each after the one before and inside the header, if and only if** no option that
    the loop comes to has the length 0. -/
theorem options_tiled_iff (hdr : Hdr) (bytes : Nat → UInt8) :
    (∃ fuel ok vec, hdr.options bytes fuel = some (ok, vec) ∧ Tiled bytes (hdr.hlen bytes) 20 vec) ↔
      ∀ data, OptionAt bytes (hdr.hlen bytes) data → 0 < optLen bytes data := by
  constructor
  · rintro ⟨fuel, ok, vec, hrun, -⟩ data hat
    by_contra hzero
    have hall : (0 : Int) < hdr.hlen bytes - data := by
      have := hat.lt
      omega
    have hnone := collectOptions_endless hat (collectOptions_stays (Nat.eq_zero_of_not_pos hzero) hall) fuel
    cases hnone.symm.trans hrun
  · intro hpos
    exact ⟨hdr.hlen bytes + 1,
      collectOptions_tiled hpos (by omega) (fun h => .first (by omega)) (by omega) (by omega)⟩

/-- A header of six words whose options are `b`, `0`, `1`, `1`. -/
def sixWords (b : UInt8) (i : Nat) : UInt8 :=
  if i = 0 then 0x46 else if i = 20 then b else if i = 21 then 0 else 1

/-- **A record-route option of length 0** is collected for ever. -/
theorem options_endless : Hdr.ip.options (sixWords 7) = fun _ => none :=
  funext (collectOptions_stays rfl (by decide))

end NvpSim.Base
