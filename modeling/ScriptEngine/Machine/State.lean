import ScriptEngine.Code.Basic
import ScriptEngine.Code.Layout
import ScriptEngine.Machine.Context
import ScriptEngine.Machine.Process
import ScriptEngine.Machine.Locks
import ScriptEngine.Machine.Coverage
/-!
The state of an engine: the code units and variable contexts that values refer to, the
lock table and the held references to locks, the processes in scheduling order, and the
counters that number new processes, groups and frames. A context or held reference stays
`live` while something refers to it (see the lifetime module). The engine also keeps the
scheduler's events since they were last taken, the coverage recorder if there is one, the
code unit being edited (shown without its name meanwhile), and the number of instructions
it may still execute.
-/
namespace ScriptEngine

/-- One held reference to a lock, shared by all copies of a lock value. -/
structure Hold where
  mutex : MutexId
  live : Bool := true
  deriving DecidableEq, Repr

inductive Event where
  | groupFinished (group : Nat)
  | objectChanged (object : Nat)
  deriving DecidableEq, Repr

/-- Instructions an engine may execute before it stops with the step limit. -/
def stepAllowance : Nat := 2000000

structure Machine where
  codes : Array Code := #[]
  contexts : Array Context := #[]
  contextLive : Array Bool := #[]
  /-- Contexts the host keeps, which live as long as it keeps them. -/
  hostContexts : Array ContextId := #[]
  locks : LockTable := {}
  holds : Array Hold := #[]
  procs : Array Process := #[]
  config : EngineConfig := {}
  /-- The identity of the next process; see `processIdOf` for the id it is known by. -/
  nextPid : Nat := 1
  nextGroup : Nat := 1
  nextFrame : Nat := 0
  events : Array Event := #[]
  coverage : Option Coverage := none
  editing : Option CodeId := none
  budget : Nat := stepAllowance
  exhausted : Bool := false

namespace Machine

def code? (m : Machine) (c : CodeId) : Option Code := m.codes[c.index]?

def codeOrEmpty (m : Machine) (c : CodeId) : Code := (m.code? c).getD Code.empty

def addCode (m : Machine) (c : Code) : Machine × CodeId :=
  ({ m with codes := m.codes.push c }, ⟨m.codes.size⟩)

def setCode (m : Machine) (id : CodeId) (c : Code) : Machine :=
  { m with codes := m.codes.set! id.index c }

def modifyCode (m : Machine) (id : CodeId) (f : Code → Code) : Machine :=
  { m with codes := m.codes.modify id.index f }

def context? (m : Machine) (c : ContextId) : Option Context := m.contexts[c.index]?

def addContext (m : Machine) (c : Context) : Machine × ContextId :=
  ({ m with contexts := m.contexts.push c, contextLive := m.contextLive.push true },
    ⟨m.contexts.size⟩)

def setContext (m : Machine) (id : ContextId) (c : Context) : Machine :=
  { m with contexts := m.contexts.set! id.index c }

def describe (m : Machine) (c : ContextId) : String :=
  ((m.context? c).map Context.describe).getD ""

def mutexName (m : Machine) (id : MutexId) : String :=
  ((m.locks.get? id).map Mutex.shownName).getD ""

/-- How values are shown: a unit being edited shows no name. -/
def names (m : Machine) : Names where
  subroutine c := if m.editing == some c then "" else (m.codeOrEmpty c).name
  context c := m.describe c
  mutex id := m.mutexName id

def procIndex? (m : Machine) (pid : Nat) : Option Nat := m.procs.findIdx? (·.id == pid)

def proc? (m : Machine) (pid : Nat) : Option Process := m.procs.find? (·.id == pid)

/-- The process the host means by an id: the first in list order that is known by it. -/
def lookupPid? (m : Machine) (pid : Nat) : Option Process := m.procs.find? (·.processId == pid)

def modifyProc (m : Machine) (pid : Nat) (f : Process → Process) : Machine :=
  match m.procIndex? pid with
  | some i => { m with procs := m.procs.modify i f }
  | none => m

def setProc (m : Machine) (p : Process) : Machine := m.modifyProc p.id fun _ => p

def addHold (m : Machine) (mutex : MutexId) : Machine × HoldId :=
  ({ m with holds := m.holds.push { mutex := mutex } }, ⟨m.holds.size⟩)

def emit (m : Machine) (e : Event) : Machine := { m with events := m.events.push e }

def takeEvents (m : Machine) : Machine × Array Event := ({ m with events := #[] }, m.events)

end Machine

end ScriptEngine
