import ScriptEngine.Decimal.Binary64
import ScriptEngine.Decimal.Shortest
import ScriptEngine.Decimal.Read
import ScriptEngine.Text.Quoted
import ScriptEngine.Value
import ScriptEngine.Operation.Basic
import ScriptEngine.Fault
import ScriptEngine.Operation.Eval
import ScriptEngine.Code.Instr
import ScriptEngine.Code.Basic
import ScriptEngine.Code.Layout
import ScriptEngine.Code.Append
import ScriptEngine.Code.Listing
import ScriptEngine.Config.Json
import ScriptEngine.Config.Engine
import ScriptEngine.Machine.Context
import ScriptEngine.Machine.Process
import ScriptEngine.Machine.Locks
import ScriptEngine.Machine.Coverage
import ScriptEngine.Machine.State
import ScriptEngine.Host.Session
import ScriptEngine.Host.Building
import ScriptEngine.Host.Inspect
import ScriptEngine.Machine.Resolve
import ScriptEngine.Machine.Lifetime
import ScriptEngine.Machine.Step
import ScriptEngine.Machine.Run
import ScriptEngine.Machine.Schedule
import ScriptEngine.Machine.Snapshot
import ScriptEngine.Host.Report
import ScriptEngine.Host.Evaluate
import ScriptEngine.Host.World
import ScriptEngine.Proofs.Postcondition
import ScriptEngine.Proofs.StepEffects
import ScriptEngine.Proofs.WellFormed
import ScriptEngine.Proofs.Reachable
import ScriptEngine.Proofs.Calls
import ScriptEngine.Proofs.FrameIsolation
import ScriptEngine.Proofs.Noninterference
import ScriptEngine.Proofs.CallDiscipline
import ScriptEngine.Proofs.Compaction
import ScriptEngine.Proofs.RunOutcome
import ScriptEngine.Proofs.LockRegistry
import ScriptEngine.Proofs.LockOperations
import ScriptEngine.Proofs.SchedulerView
import ScriptEngine.Proofs.GroupTurns
import ScriptEngine.Proofs.ListOperations
import ScriptEngine.Proofs.Generations
import ScriptEngine.Proofs.Resumption
import ScriptEngine.Proofs.PriorityOrder
import ScriptEngine.Proofs.Reinsertion
import ScriptEngine.Proofs.CodeTables
import ScriptEngine.Proofs.StackRoom
import ScriptEngine.Proofs.FrameViews
import ScriptEngine.Proofs.NameResolution
import ScriptEngine.Proofs.FrameContext
import ScriptEngine.Proofs.Appending
import ScriptEngine.Proofs.Untouched
import ScriptEngine.Proofs.CoverageRecord
import ScriptEngine.Proofs.CoverageRun
import ScriptEngine.Proofs.Settling
import ScriptEngine.Proofs.LiveSteps
import ScriptEngine.Proofs.LockLifetime
import ScriptEngine.Proofs.Relocation
import ScriptEngine.Proofs.CompactForm
import ScriptEngine.Proofs.LineMap
import ScriptEngine.Proofs.IntegerArithmetic
import ScriptEngine.Proofs.GroupHandover
import ScriptEngine.Proofs.Comparison
import ScriptEngine.Proofs.CoverageClosure
import ScriptEngine.Proofs.JumpThreading
import ScriptEngine.Proofs.CoverageReport
import ScriptEngine.Proofs.Reaping
