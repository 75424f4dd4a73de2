import ScriptEngine.Host.Session
import ScriptEngine.Machine.Resolve
/-!
What the host sees of an engine after each of its steps: every process in list order, with
its frames bottom first, its stacks, handlers and contexts, its result and failure and the
object it acts for; and every live lock of the registry in slot order, or nothing when no
registry is attached. A frame reports the line of the instruction it will run next, and no
line once it has run past its last instruction.
-/
namespace ScriptEngine

/-- A frame as the host sees it: the unit's registered name, where it is, its locals and the
depths of the other stacks when it was entered. -/
structure FrameReport where
  code : Option String
  pc : Nat
  currentPc : Nat
  line : Option Nat
  locals : List Shown
  contextSp : Nat
  contextTos : Nat
  handlerSp : Nat
  valueSp : Nat
  wantResult : Bool
  deriving DecidableEq, Repr

structure ProcessReport where
  id : Nat
  name : String
  status : Status
  priority : Int
  group : Nat
  role : Role
  frames : List FrameReport
  values : List Shown
  handlers : List Handler
  contexts : List String
  contextTos : Nat
  result : Option Shown
  failure : Option Failure
  object : Option Nat
  limits : Limits
  terminal : Bool
  deriving Repr

/-- A lock as the host sees it; an abandoned lock shows the name `<dead>` and no owner. -/
structure LockReport where
  name : String
  note : String
  slot : Nat
  refs : Nat
  owner : Option Nat
  abandoned : Bool
  deriving DecidableEq, Repr

namespace Session

def frameReport (s : Session) (f : Frame) : FrameReport :=
  let c := s.machine.codeOrEmpty f.code
  { code := s.codeName? f.code
    pc := f.pc
    currentPc := f.currentPc
    line := if f.pc < c.size then c.lineFor? f.pc else none
    locals := f.locals.toList.map s.shown
    contextSp := f.contextSp
    contextTos := f.contextTos
    handlerSp := f.handlerSp
    valueSp := f.valueSp
    wantResult := f.wantResult }

def processReport (s : Session) (p : Process) : ProcessReport :=
  { id := p.processId
    name := p.name
    status := p.status
    priority := p.priority
    group := p.group
    role := p.role
    frames := p.frames.toList.map s.frameReport
    values := p.values.toList.map s.shown
    handlers := p.handlers.toList
    contexts := p.contexts.toList.map s.machine.describe
    contextTos := p.contextTos
    result := p.result.map s.shown
    failure := p.failure
    object := s.machine.invokingObject p
    limits := p.limits
    terminal := p.status.isTerminal }

def processReports (s : Session) : List ProcessReport :=
  s.machine.procs.toList.map s.processReport

end Session

def Mutex.report (m : Mutex) : LockReport :=
  { name := m.shownName, note := m.note, slot := m.slot, refs := m.refs,
    owner := m.currentOwner.map processIdOf, abandoned := !m.live }

/-- The lock's fields in the engine's debug form. -/
def Mutex.debugText (m : Mutex) : String :=
  let owner := match m.currentOwner with
    | some pid => "Some(ProcessId(" ++ toString (processIdOf pid) ++ "))"
    | none => "None"
  "Mutex \x7b name: " ++ Text.quote m.shownName ++ ", slot: " ++ toString m.slot ++
    ", refs: " ++ toString m.refs ++ ", owner: " ++ owner ++ " \x7d"

namespace Session

def lockReport? (s : Session) (id : MutexId) : Option LockReport :=
  (s.machine.locks.get? id).map Mutex.report

/-- The registry's live locks in slot order, or none without a registry. -/
def lockReports (s : Session) : Option (List LockReport) :=
  s.machine.locks.registry.map fun _ =>
    (s.machine.locks.enum none).filterMap s.lockReport?

end Session

end ScriptEngine
