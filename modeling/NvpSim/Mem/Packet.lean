/-
  Packets: the commands of the memory system, their attributes, and the data they carry.

  `MemCmd` is the enumeration of `mem/packet.hh` and `attributes`/`responseCommand` are the table
  `MemCmd::commandInfo` of `mem/packet.cc`, row by row.

  A `Packet` carries the members that caches, crossbars and memories read: the address, the size, the bytes, the
  security attribute and the snoop flags.  The request behind it keeps its OWN physical address, which for a
  block request made by a cache is not the address of the packet.
-/
import NvpSim.Lib.Buffer

namespace NvpSim.Mem

open NvpSim.Lib

abbrev Addr := Nat

abbrev Byte := BitVec 8

/-! ## Commands -/

/-- `MemCmd::Command`. -/
inductive MemCmd where
  | invalidCmd
  | readReq
  | readResp
  | readRespWithInvalidate
  | writeReq
  | writeResp
  | writeback
  | softPFReq
  | hardPFReq
  | softPFResp
  | hardPFResp
  | writeInvalidateReq
  | writeInvalidateResp
  | upgradeReq
  | scUpgradeReq
  | upgradeResp
  | scUpgradeFailReq
  | upgradeFailResp
  | readExReq
  | readExResp
  | loadLockedReq
  | storeCondReq
  | storeCondFailReq
  | storeCondResp
  | swapReq
  | swapResp
  | messageReq
  | messageResp
  | invalidDestError
  | badAddressError
  | functionalReadError
  | functionalWriteError
  | printReq
  | flushReq
  | invalidationReq
  deriving DecidableEq, Repr

inductive Attribute where
  | isRead
  | isWrite
  | isUpgrade
  | isInvalidate
  | needsExclusive
  | isRequest
  | isResponse
  | needsResponse
  | isSWPrefetch
  | isHWPrefetch
  | isLlsc
  | hasData
  | isError
  | isPrint
  | isFlush
  deriving DecidableEq, Repr

namespace MemCmd

open Attribute in
/-- The attributes of `MemCmd::commandInfo`. -/
def attributes : MemCmd → List Attribute
  | invalidCmd => []
  | readReq => [isRead, isRequest, needsResponse]
  | readResp => [isRead, isResponse, hasData]
  | readRespWithInvalidate => [isRead, isResponse, hasData, isInvalidate]
  | writeReq => [isWrite, needsExclusive, isRequest, needsResponse, hasData]
  | writeResp => [isWrite, needsExclusive, isResponse]
  | writeback => [isWrite, needsExclusive, isRequest, hasData]
  | softPFReq => [isRead, isRequest, isSWPrefetch, needsResponse]
  | hardPFReq => [isRead, isRequest, isHWPrefetch, needsResponse]
  | softPFResp => [isRead, isResponse, isSWPrefetch, hasData]
  | hardPFResp => [isRead, isResponse, isHWPrefetch, hasData]
  | writeInvalidateReq =>
    [isWrite, needsExclusive, isInvalidate, isRequest, hasData, needsResponse]
  | writeInvalidateResp => [isWrite, needsExclusive, isResponse]
  | upgradeReq => [isInvalidate, needsExclusive, isUpgrade, isRequest, needsResponse]
  | scUpgradeReq => [isInvalidate, needsExclusive, isUpgrade, isLlsc, isRequest, needsResponse]
  | upgradeResp => [needsExclusive, isUpgrade, isResponse]
  | scUpgradeFailReq => [isRead, needsExclusive, isInvalidate, isLlsc, isRequest, needsResponse]
  | upgradeFailResp => [isRead, needsExclusive, isResponse, hasData]
  | readExReq => [isRead, needsExclusive, isInvalidate, isRequest, needsResponse]
  | readExResp => [isRead, needsExclusive, isResponse, hasData]
  | loadLockedReq => [isRead, isLlsc, isRequest, needsResponse]
  | storeCondReq => [isWrite, needsExclusive, isLlsc, isRequest, needsResponse, hasData]
  | storeCondFailReq => [isWrite, needsExclusive, isLlsc, isRequest, needsResponse, hasData]
  | storeCondResp => [isWrite, needsExclusive, isLlsc, isResponse]
  | swapReq => [isRead, isWrite, needsExclusive, isRequest, hasData, needsResponse]
  | swapResp => [isRead, isWrite, needsExclusive, isResponse, hasData]
  | messageReq => [isWrite, isRequest, needsResponse, hasData]
  | messageResp => [isWrite, isResponse]
  | invalidDestError => [isResponse, isError]
  | badAddressError => [isResponse, isError]
  | functionalReadError => [isRead, isResponse, isError]
  | functionalWriteError => [isWrite, isResponse, isError]
  | printReq => [isRequest, isPrint]
  | flushReq => [isRequest, isFlush, needsExclusive]
  | invalidationReq => [needsExclusive, isInvalidate, isRequest]

/-- The responses of `MemCmd::commandInfo`. -/
def responseCommand : MemCmd → MemCmd
  | readReq => readResp
  | writeReq => writeResp
  | softPFReq => softPFResp
  | hardPFReq => hardPFResp
  | writeInvalidateReq => writeInvalidateResp
  | upgradeReq => upgradeResp
  | scUpgradeReq => upgradeResp
  | scUpgradeFailReq => upgradeFailResp
  | readExReq => readExResp
  | loadLockedReq => readResp
  | storeCondReq => storeCondResp
  | storeCondFailReq => storeCondResp
  | swapReq => swapResp
  | messageReq => messageResp
  | _ => invalidCmd

def testCmdAttrib (cmd : MemCmd) (attrib : Attribute) : Bool := cmd.attributes.contains attrib

def isRead (cmd : MemCmd) : Bool := cmd.testCmdAttrib .isRead

def isWrite (cmd : MemCmd) : Bool := cmd.testCmdAttrib .isWrite

def isUpgrade (cmd : MemCmd) : Bool := cmd.testCmdAttrib .isUpgrade

def isInvalidate (cmd : MemCmd) : Bool := cmd.testCmdAttrib .isInvalidate

def needsExclusive (cmd : MemCmd) : Bool := cmd.testCmdAttrib .needsExclusive

def isRequest (cmd : MemCmd) : Bool := cmd.testCmdAttrib .isRequest

def isResponse (cmd : MemCmd) : Bool := cmd.testCmdAttrib .isResponse

def needsResponse (cmd : MemCmd) : Bool := cmd.testCmdAttrib .needsResponse

def hasData (cmd : MemCmd) : Bool := cmd.testCmdAttrib .hasData

def isLLSC (cmd : MemCmd) : Bool := cmd.testCmdAttrib .isLlsc

def isError (cmd : MemCmd) : Bool := cmd.testCmdAttrib .isError

def isWriteInvalidate (cmd : MemCmd) : Bool := cmd.isWrite && cmd.isInvalidate

/-- **The table is well formed**: what needs a response is a request, its response is a response,
    and a response needs none. -/
theorem responseCommand_isResponse (cmd : MemCmd) (h : cmd.needsResponse = true) :
    cmd.isRequest = true ∧ cmd.responseCommand.isResponse = true ∧ cmd.responseCommand.needsResponse = false := by
  cases cmd <;> revert h <;> decide

theorem isResponse_of_isRequest (cmd : MemCmd) (h : cmd.isRequest = true) : cmd.isResponse = false := by
  cases cmd <;> revert h <;> decide

end MemCmd

/-! ## Requests and packets -/

/-- The members of `Request` that the memory system reads. -/
structure Request where
  paddr : Addr
  size : Nat
  contextId : Int
  extraData : Nat
  isUncacheable : Bool
  isInstFetch : Bool
  isCondSwap : Bool
  isSecure : Bool
  isClearLL : Bool
  deriving DecidableEq, Repr

namespace Request

def setExtraData (r : Request) (v : Nat) : Request := { r with extraData := v }

end Request

/-- The bytes of an integer as the (little-endian) host stores it. -/
def bytesOf (v : Nat) : Buffer Byte := fun i => BitVec.ofNat 8 (v >>> (8 * i))

structure Packet where
  cmd : MemCmd
  req : Request
  addr : Addr
  isSecure : Bool
  size : Nat
  data : Buffer Byte
  sharedAsserted : Bool
  memInhibitAsserted : Bool
  isSupplyExclusive : Bool

namespace Packet

/-- `Packet(req, cmd)`: address and size are the request's; `data` are the bytes it comes with. -/
def ofRequest (req : Request) (cmd : MemCmd) (data : Buffer Byte) : Packet where
  cmd := cmd
  req := req
  addr := req.paddr
  isSecure := req.isSecure
  size := req.size
  data := data
  sharedAsserted := false
  memInhibitAsserted := false
  isSupplyExclusive := false

/-- `makeResponse()`; every caller has tested `needsResponse()`. -/
def makeResponse (pkt : Packet) : Packet := { pkt with cmd := pkt.cmd.responseCommand }

/-- `setData(p)`: the bytes `p + s` become the bytes of the packet. -/
def setData (pkt : Packet) (p : Buffer Byte) (s : Nat) : Packet :=
  { pkt with data := memcpy pkt.data 0 p s pkt.size }

/-- The test of a conditional swap: the bytes at `p + s` equal the request's extra data.  Only
    sizes 8 and 4 are defined. -/
def condSwapMatches (pkt : Packet) (p : Buffer Byte) (s : Nat) : Option Bool :=
  if pkt.size = 8 then some (memEq (bytesOf pkt.req.extraData) 0 p s 8)
  else if pkt.size = 4 then some (memEq (bytesOf (pkt.req.extraData % 2 ^ 32)) 0 p s 4)
  else none

/-- Whether a swap overwrites the bytes at `p + s`. -/
def swapOverwrites (pkt : Packet) (p : Buffer Byte) (s : Nat) : Option Bool :=
  if pkt.req.isCondSwap then pkt.condSwapMatches p s else some true

end Packet

end NvpSim.Mem
