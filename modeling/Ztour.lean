import Ztour.Foundation.Bytes
import Ztour.Foundation.ByteMemory
import Ztour.Foundation.Jump
import Ztour.Foundation.Numeral
import Ztour.Foundation.Result
import Ztour.Foundation.TextStream
import Ztour.Foundation.TransitionSystem
import Ztour.Base
import Ztour.Encoder
import Ztour.Decoder
import Ztour.TableDecoder
import Ztour.Relocation.Model
import Ztour.Relocation.Instruction
import Ztour.Relocation.Code
import Ztour.Relocation.Soundness
import Ztour.Relocation.Completeness
import Ztour.PatternScan.Model
import Ztour.PatternScan.PatternString
import Ztour.PatternScan.Comparison
import Ztour.PatternScan.Loop
import Ztour.PatternScan.Results
import Ztour.PatternScan.Soundness
import Ztour.PatternScan.Completeness
import Ztour.Memory
import Ztour.MemPage
import Ztour.HookInst.Inner
import Ztour.HookInst.Construction
import Ztour.HookInst.ControlFlow
import Ztour.HookInst.World
import Ztour.HookInst.PatchInPlace
import Ztour.HookInst.Overlay
import Ztour.Concurrency.Model
import Ztour.Concurrency.Steps
import Ztour.Concurrency.Control
import Ztour.Concurrency.OrphanedPatch
import Ztour.Concurrency.CallGate
import Ztour.Concurrency.Unhooking
import Ztour.Concurrency.Sequential
import Ztour.HookInst.Reversal
import Ztour.HookInst.Bulk
import Ztour.HookInst.Independence
import Ztour.Concurrency.GateWait
import Ztour.Concurrency.Creation
import Ztour.Allocation
import Ztour.Concurrency.Registry
import Ztour.Concurrency.BulkRace
import Ztour.Concurrency.Blocking
import Ztour.Concurrency.Deadlock
import Ztour.Concurrency.BulkAlone
import Ztour.HookInst.CodePages
import Ztour.PatternScan.BytesToStr
import Ztour.ModuleRegions
import Ztour.DecodeBytes
import Ztour.JumpRoundTrip
import Ztour.Relocation.Composition
import Ztour.Foundation.Pages
import Ztour.PageSearch
import Ztour.Foundation.Collect
import Ztour.PatternScan.ModuleScan
import Ztour.Foundation.Footprint
import Ztour.HookInst.SelfReference
import Ztour.Protection
import Ztour.HookInst.SystemCalls
import Ztour.HookInst.SystemFailures
import Ztour.Foundation.Consecutive
import Ztour.PageLog
import Ztour.Foundation.Ram
import Ztour.Foundation.X86
import Ztour.CounterStub
import Ztour.PageOwnership
import Ztour.Foundation.Simulation
import Ztour.HookInst.CallOriginal
import Ztour.HookInst.Chaining
import Ztour.Foundation.AtomicObject
import Ztour.Concurrency.Linearization
import Ztour.Foundation.Stride
import Ztour.PageNearest
import Ztour.HookInst.BulkCalls
import Ztour.Foundation.Progress
import Ztour.Concurrency.GateDrain
import Ztour.HookInst.Names
import Ztour.PatternScan.SingleMatch
import Ztour.PatternScan.Padding
import Ztour.Concurrency.BulkDrain
