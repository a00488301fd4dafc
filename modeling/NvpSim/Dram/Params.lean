/-
  The parameters of `DRAMCtrl` and what its constructor makes of them (`mem/DRAMCtrl.py`, the constructor in
  `mem/dram_ctrl.cc`).

  A member of the controller that is COMPUTED from the parameters is a function here.  Left out is what only the
  read queue, the accesses to the DRAM, the refresh, the statistics and the power trace read; of the checks of the
  constructor all are kept, with the parameters that they compare.
-/
import NvpSim.Base.AddrRange

namespace NvpSim.Dram

open NvpSim.Base

/-- `ceilLog2(n)`. -/
def ceilLog2 (n : Nat) : Nat := if n = 1 then 0 else Nat.log2 (n - 1) + 1

/-- `mem_sched_policy`. -/
inductive MemSched where
  | fcfs
  | frfcfs
  deriving DecidableEq, Repr

/-- `addr_mapping`: the order of row, rank, bank, channel and column in an address. -/
inductive AddrMap where
  | roRaBaChCo
  | roRaBaCoCh
  | roCoRaBaCh
  deriving DecidableEq, Repr

/-- The parameters that the queues, the decoding of addresses and the choice of the next request read. -/
structure DRAMCtrlParams where
  range : AddrRange
  deviceBusWidth : Nat
  burstLength : Nat
  deviceRowBufferSize : Nat
  devicesPerRank : Nat
  ranksPerChannel : Nat
  bankGroupsPerRank : Nat
  banksPerRank : Nat
  channels : Nat
  writeBufferSize : Nat
  writeHighThreshPerc : Nat
  writeLowThreshPerc : Nat
  memSchedPolicy : MemSched
  addrMapping : AddrMap
  frontendLatency : Nat
  tBURST : Nat
  tCCD_L : Nat
  tRCD : Nat
  tCL : Nat
  tRP : Nat
  tRFC : Nat
  tREFI : Nat
  tRRD : Nat
  tRRD_L : Nat
  deriving DecidableEq, Repr

namespace DRAMCtrlParams

variable (p : DRAMCtrlParams)

/-- The bytes of one burst of the channel. -/
def burstSize : Nat := p.devicesPerRank * p.burstLength * p.deviceBusWidth / 8

/-- The bytes of one row, over all devices of a rank. -/
def rowBufferSize : Nat := p.devicesPerRank * p.deviceRowBufferSize

/-- The bursts of a row. -/
def columnsPerRowBuffer : Nat := p.rowBufferSize / p.burstSize

def columnsPerStripe : Nat :=
  if p.range.interleaved then p.range.granularity / p.burstSize else 1

def bankGroupArch : Bool := 0 < p.bankGroupsPerRank

/-- The total capacity, rounded up to a power of two. -/
def capacity : Nat := 2 ^ ceilLog2 p.range.size

/-- The rows of a bank follow from the capacity of the channel. -/
def rowsPerBank : Nat := p.capacity / (p.rowBufferSize * p.banksPerRank * p.ranksPerChannel)

/-- The checks of the constructor. -/
structure Accepted : Prop where
  burstSize_ne : p.burstSize ≠ 0
  rows_ne : p.rowBufferSize * p.banksPerRank * p.ranksPerChannel ≠ 0
  ranks_pow : p.ranksPerChannel &&& (p.ranksPerChannel - 1) = 0
  thresh : p.writeLowThreshPerc < p.writeHighThreshPerc
  tREFI_tRP : p.tRP < p.tREFI
  tREFI_tRFC : p.tRFC < p.tREFI
  groups_le : p.bankGroupArch = true → p.bankGroupsPerRank ≤ p.banksPerRank
  groups_dvd : p.bankGroupArch = true → p.banksPerRank % p.bankGroupsPerRank = 0
  tCCD_L_tBURST : p.bankGroupArch = true → p.tBURST < p.tCCD_L
  tRRD_L_tRRD : p.bankGroupArch = true → p.tRRD ≤ p.tRRD_L

end DRAMCtrlParams

/-- `DDR3_1600_x64`, in picoseconds, with the capacity of its devices. -/
def ddr3_1600_x64 : DRAMCtrlParams where
  range := .ofSize 0 (2 ^ 33)
  deviceBusWidth := 8
  burstLength := 8
  deviceRowBufferSize := 1024
  devicesPerRank := 8
  ranksPerChannel := 2
  bankGroupsPerRank := 0
  banksPerRank := 8
  channels := 1
  writeBufferSize := 64
  writeHighThreshPerc := 85
  writeLowThreshPerc := 50
  memSchedPolicy := .frfcfs
  addrMapping := .roRaBaCoCh
  frontendLatency := 10000
  tBURST := 5000
  tCCD_L := 0
  tRCD := 13750
  tCL := 13750
  tRP := 13750
  tRFC := 260000
  tREFI := 7800000
  tRRD := 6000
  tRRD_L := 0

theorem ddr3_accepted : ddr3_1600_x64.Accepted where
  burstSize_ne := by decide
  rows_ne := by decide
  ranks_pow := by decide
  thresh := by decide
  tREFI_tRP := by decide
  tREFI_tRFC := by decide
  groups_le := by decide
  groups_dvd := by decide
  tCCD_L_tBURST := by decide
  tRRD_L_tRRD := by decide

end NvpSim.Dram
