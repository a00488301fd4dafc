import NvpSim.Sim.Service
import NvpSim.Base.AddrRangeMap
import NvpSim.Base.TrieRemoval
import NvpSim.Base.Tokens
import NvpSim.Mem.LoadLinked
import NvpSim.Mem.BlockLocks
import NvpSim.Mem.XBarLayer
import NvpSim.Mem.PacketOrder
import NvpSim.Mem.PageTableRefinement
import NvpSim.Mem.PageMoves
import NvpSim.Mem.NoFalseAlarm
import NvpSim.Mem.CheckerTies
import NvpSim.Mem.Uncacheable
import NvpSim.Dev.PacketFifo
import NvpSim.Dram.WriteMerging
import NvpSim.Dram.ChooseNext
import NvpSim.Cpu.RenameSafety
import NvpSim.Cpu.ReturnStack
import NvpSim.Mem.BridgeSafety
import NvpSim.Sim.Checkpoint
import NvpSim.Sim.ClockedObject
import NvpSim.Ruby.Delivery
import NvpSim.Ruby.MiMessages
import NvpSim.Energy.TwoThres
import NvpSim.Energy.Dvfs
import NvpSim.Energy.DfsReach
import NvpSim.Cpu.StartUp
import NvpSim.Vdev.Status
import NvpSim.Vdev.TaskTime
import NvpSim.Vdev.DeviceRet
import NvpSim.Sim.DebugVerify
import NvpSim.Cpu.AtomicRet
import NvpSim.Cpu.BindingOrder
import NvpSim.Mem.CheckFunctional
import NvpSim.Mem.MshrFlags
import NvpSim.Mem.MshrQueue
import NvpSim.Mem.LruTags
import NvpSim.Mem.MemWriteback
import NvpSim.Base.Interleaving
import NvpSim.Base.SymbolTable
import NvpSim.Base.HeaderOptions
import NvpSim.Ruby.Llsc
