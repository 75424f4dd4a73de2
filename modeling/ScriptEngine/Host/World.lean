import ScriptEngine.Host.Building
import ScriptEngine.Host.Report
import ScriptEngine.Machine.Snapshot
import ScriptEngine.Config.Engine
/-!
A host driving an engine step by step: it defines units and contexts by name, creates
processes and works on their stacks, runs them, keeps handles to locks, records coverage and
loads through the snapshot layers; after each step whatever nothing refers to is released,
and the host sees the reply, the events, every process and every live lock. The host names a
process by the id it was given, and means the first process in list order known by it (ids
wrap past `2^32 - 1`); a step on a process that no process is answers `noSuchProcess`. An
unknown lock handle, a load through a missing process, a new variable in a name that holds
no context of variables, a typed load of a kind without one, a missing registry or recorder,
or running past the allowance ends the session.
-/
namespace ScriptEngine

/-- Where a load starts: which source answers requests no layer takes. -/
inductive Source where
  | none
  | registered
  deriving DecidableEq, Repr

/-- One thing the host asks of the engine. Units and contexts are named by the host's
registrations, processes by id, locks by the handle number the host received. -/
inductive WorldStep where
  | defineCode (name : String) (steps : List CodeStep)
  | editCode (name : String) (steps : List CodeStep)
  | defineContext (name : String) (object : Option Nat) (vars : List (String × Literal))
  | contextDefine (ctx var : String) (value : Literal)
  | contextLookup (ctx var : String)
  | contextAssign (ctx var : String) (value : Literal)
  | contextInfo (ctx : String)
  | frameContext (pid level : Nat) (viewName : String)
  | create (name : String)
  | pushFrame (pid : Nat) (code : String) (wantResult : Bool)
  | popFrame (pid : Nat)
  | pushContext (pid : Nat) (ctx : String)
  | popContext (pid : Nat)
  | markContextTos (pid : Nat)
  | lookup (pid : Nat) (var : String)
  | pushHandler (pid pc : Nat)
  | pushHandlerAt (pid : Nat) (h : Handler)
  | popHandler (pid : Nat)
  | pushValue (pid : Nat) (value : Literal)
  | popValue (pid : Nat)
  | pushLock (pid handle : Nat)
  | run (pid : Nat)
  | runTemporary (pid : Nat)
  | setStatus (pid : Nat) (status : Status)
  | setRawPriority (pid : Nat) (priority : Int)
  | setGroup (pid group : Nat)
  | setRole (pid : Nat) (role : Role)
  | setLimits (pid : Nat) (limits : Limits)
  | allocateGroup
  | startGroup (group : Nat)
  | runList
  | join (pid group : Nat)
  | resume (pid group : Nat)
  | continueProcess (pid : Nat)
  | continueWithFailure (pid : Nat) (message : String)
  | terminate (pid : Nat)
  | resumeSuspended (group : Nat)
  | setPriority (pid : Nat) (priority : Int)
  | handlePriorityChange (pid : Nat)
  | removeTerminated
  | running
  | byObject (object : Nat) (role : Role)
  | count
  | config
  | mutexCreate (name note : String) (owner : Option Nat)
  | mutexLoad (name note : String) (owner : Option Nat)
  | mutexQuery (name : String)
  | mutexInfo (handle : Nat)
  | mutexDebug (handle : Nat)
  | mutexAddRef (handle : Nat)
  | mutexRemoveRef (handle : Nat)
  | mutexSetOwner (handle : Nat) (owner : Option Nat)
  | disown (pid : Nat)
  | enumMutexes (owner : Option Nat)
  | mutexCount
  | dropRegistry
  | attachRegistry
  | coverageNew
  | coverageAdd (code : String)
  | coverageSave (test : String)
  | coverageRegistered
  | coverageHas (code : String)
  | load (layer : Layer) (source : Source) (helper : Bool) (request : Request)
  | saveIds (codes : List String) (existing : List String)
  deriving Repr

/-- What a load supplied, as the host sees it. -/
inductive LoadReply where
  | value (v : Shown)
  | bytecode (name : Option String)
  | context (describe : String)
  | process (pid : Nat)
  | mutex (handle : Nat) (lock : LockReport)
  deriving DecidableEq, Repr

inductive WorldReply where
  | unit
  | flag (b : Bool)
  | count (n : Nat)
  | maybeCount (n : Option Nat)
  | text (s : String)
  | maybeText (s : Option String)
  | values (vs : List Shown)
  | fault (f : Fault)
  | noSuchProcess
  | built (replies : List CodeReply)
  | contextInfo (describe : String) (object : Option Nat)
  | handler (h : Option Handler)
  | config (c : EngineConfig) (valid : Bool)
  | mutex (handle : Nat) (lock : LockReport)
  | lock (lock : Option LockReport)
  | locks (locks : List LockReport)
  | lockCount (n : Nat)
  | loaded (l : Option LoadReply)
  | saveIds (ids : List Nat) (existing : List (Option Nat)) (order : List (Option String))
  deriving Repr

/-- Why a session stopped before its last step. -/
inductive Abort where
  | unknownHandle (handle : Nat)
  | noProcess (pid : Nat)
  | noRegistry
  | noCoverage
  | notBindings (ctx : String)
  | helperRequest
  | stepLimit
  /-- The engine itself stopped, with the runtime's message. -/
  | panic (message : String)
  deriving DecidableEq, Repr

/-- The text a stopped session is reported with. -/
def Abort.message : Abort → String
  | .unknownHandle h => "no mutex handle " ++ toString h
  | .noProcess pid => "no process " ++ toString pid
  | .noRegistry => "mutex list is gone"
  | .noCoverage => "no coverage recorder"
  | .notBindings ctx => ctx ++ " is not a variable context"
  | .helperRequest => "no helper for this request"
  | .stepLimit => "step limit"
  | .panic message => message

/-- What the host sees after one step. -/
structure StepRecord where
  reply : WorldReply
  events : List Event
  processes : List ProcessReport
  locks : Option (List LockReport)
  deriving Repr

/-- The process a step works on, if it works on one. -/
def WorldStep.target : WorldStep → Option Nat
  | .frameContext pid _ _ | .pushFrame pid _ _ | .popFrame pid | .pushContext pid _
  | .popContext pid | .markContextTos pid | .lookup pid _ | .pushHandler pid _
  | .pushHandlerAt pid _ | .popHandler pid | .pushValue pid _ | .popValue pid
  | .pushLock pid _ | .run pid | .runTemporary pid | .setStatus pid _
  | .setRawPriority pid _ | .setGroup pid _ | .setRole pid _ | .setLimits pid _ => some pid
  | _ => none

namespace Session

/-- A session over an engine with `config`, with a lock registry if `registry`. -/
def world (config : EngineConfig) (registry : Bool) : Session :=
  { machine := { config := config, locks := { registry := if registry then some {} else none } } }

def withMachine (s : Session) (m : Machine) : Session := { s with machine := m }

def handle (s : Session) (h : Nat) : Except Abort MutexId :=
  match s.mutexHandles[h]? with
  | some id => .ok id
  | none => .error (.unknownHandle h)

/-- Keeps a handle to a lock: its number. -/
def keepHandle (s : Session) (id : MutexId) : Session × Nat :=
  ({ s with mutexHandles := s.mutexHandles.push id }, s.mutexHandles.size)

def lockReply (s : Session) (id : MutexId) : LockReport :=
  (s.lockReport? id).getD (Mutex.report { name := "", note := "", slot := 0, owner := none })

/-- A lock obtained from the registry becomes a handle; a refusal is a fault. -/
def obtained (s : Session) : Except Fault (LockTable × MutexId) → Session × WorldReply
  | .ok (locks, id) =>
    let (s, h) := { s with machine := { s.machine with locks := locks } }.keepHandle id
    (s, .mutex h (s.lockReply id))
  | .error f => (s, .fault f)

/-- The source that answers from the host's registrations: units and contexts by their
place in registration order. -/
def registeredSource (s : Session) : Request → Option Loaded
  | .bytecode n => s.codeNames[n]?.map fun (_, c) => .bytecode c
  | .context 0 n => s.contextNames[n]?.map fun (_, c) => .context c
  | _ => none

def sourceOf (s : Session) : Source → Request → Option Loaded
  | .none => fun _ => none
  | .registered => s.registeredSource

def loadReply (s : Session) : Loaded → Session × LoadReply
  | .value v => (s, .value (s.shown v))
  | .bytecode c => (s, .bytecode (s.codeName? c))
  | .context c => (s, .context (s.machine.describe c))
  | .process pid => (s, .process (processIdOf pid))
  | .mutex id =>
    let (s, h) := s.keepHandle id
    (s, .mutex h (s.lockReply id))

/-- Loads through `layer` over `source`. A plain load answers what was supplied or nothing;
a typed load (`helper`) asks for one kind of entity and faults when it is not supplied. -/
def loadStep (s : Session) (layer : Layer) (source : Source) (helper : Bool) (r : Request) :
    Except Abort (Session × WorldReply) := do
  let layer ← match layer with
    | .process pid =>
      match s.machine.lookupPid? pid with
      | some p => pure (.process p.id)
      | none => throw (.noProcess pid)
    | layer => pure layer
  let parent := s.sourceOf source
  let m := s.machine
  if !helper then
    let (m, l) := m.load layer parent r
    match l with
    | some l => let (s, l) := (s.withMachine m).loadReply l; .ok (s, .loaded (some l))
    | none => .ok (s.withMachine m, .loaded none)
  else
    let answer (m : Machine) (r : Except Fault Loaded) : Session × WorldReply :=
      match r with
      | .ok l => let (s, l) := (s.withMachine m).loadReply l; (s, .loaded (some l))
      | .error f => (s.withMachine m, .fault f)
    match r with
    | .bytecode id =>
      let (m, r) := m.loadBytecode layer parent id
      .ok (answer m (r.map .bytecode))
    | .context tag id =>
      let (m, r) := m.loadContext layer parent tag id
      .ok (answer m (r.map .context))
    | .process name =>
      let (m, r) := m.loadProcess layer parent name
      .ok (answer m (r.map .process))
    | .mutex name note owned =>
      let (m, r) := m.loadLock layer parent name note owned
      .ok (answer m (r.map .mutex))
    | _ => .error .helperRequest

/-- Numbers units by identity as a save does; also the numbers of units already met. -/
def saveIdsStep (s : Session) (codes existing : List String) : Session × WorldReply :=
  let (s, ids, save) := codes.foldl (fun (acc : Session × List Nat × SaveIds) name =>
    let (s, id) := acc.1.codeNamed name
    let (save, n) := acc.2.2.codeId id
    (s, acc.2.1 ++ [n], save)) (s, [], {})
  let (s, found) := existing.foldl (fun (acc : Session × List (Option Nat)) name =>
    let (s, id) := acc.1.codeNamed name
    (s, acc.2 ++ [save.existing? id])) (s, [])
  (s, .saveIds ids found (save.codes.toList.map s.codeName?))

def coverage (s : Session) : Except Abort Coverage :=
  match s.machine.coverage with
  | some c => .ok c
  | none => .error .noCoverage

def setCoverage (s : Session) (c : Coverage) : Session :=
  s.withMachine { s.machine with coverage := some c }

def registry (s : Session) : Except Abort Unit :=
  if s.machine.locks.registry.isSome then .ok () else .error .noRegistry

def modifyLocks (s : Session) (f : LockTable → LockTable) : Session :=
  s.withMachine { s.machine with locks := f s.machine.locks }

/-- Edits a registered unit in place: the unit shows no name while it is being edited. -/
def editCode (s : Session) (name : String) (steps : List CodeStep) : Session × WorldReply :=
  let (s, id) := s.codeNamed name
  let s := s.withMachine { s.machine with editing := some id }
  let (s, c, replies) := s.buildSteps (s.machine.codeOrEmpty id) steps
  (s.withMachine { s.machine.setCode id c with editing := none }, .built replies)

/-- Defines `var` as the value of `l` in the context `id`, if it is a context of variables. -/
def defineIn (s : Session) (id : ContextId) (var : String) (l : Literal) : Option Session :=
  let (s, v) := s.resolve l
  match s.machine.context? id with
  | some (.bindings b) => some (s.withMachine (s.machine.setContext id (.bindings (b.define var v))))
  | _ => none

/-- Defines a context of variables, bound to `object` if given, under `name`. The context is
registered before its variables are defined, so a variable naming `name` refers to the new
context itself. -/
def defineContext (s : Session) (name : String) (object : Option Nat)
    (vars : List (String × Literal)) : Session :=
  let (m, id) := s.machine.addContext (.bindings { name := name, object := object })
  let s := (s.withMachine m).registerContext name id
  vars.foldl (fun s (var, l) => (s.defineIn id var l).getD s) s

/-- Defines a variable in the context of variables registered under `ctx`; a name that is
not registered, or holds another kind of context, takes no new variables. -/
def contextDefine (s : Session) (ctx var : String) (l : Literal) : Except Abort Session :=
  match s.contextNamed? ctx >>= (s.defineIn · var l) with
  | some s => .ok s
  | none => .error (.notBindings ctx)

def onMachine {α : Type} (s : Session) (f : Machine → Machine × α) : Session × α :=
  let (m, a) := f s.machine
  (s.withMachine m, a)

/-- Runs an operation of the process list on the process the host means by `pid`; without
one the answer is `false`, as the list's own lookup gives. -/
def onProcess (s : Session) (pid : Nat) (f : Machine → Nat → Machine × Bool) : Session × WorldReply :=
  match s.machine.lookupPid? pid with
  | some p => let (m, b) := f s.machine p.id; (s.withMachine m, .flag b)
  | none => (s, .flag false)

def modifyProcess (s : Session) (pid : Nat) (f : Process → Process) : Session :=
  s.withMachine (s.machine.modifyProc pid f)

/-- Performs a step on a process that exists. -/
def performOn (s : Session) (p : Process) : WorldStep → Except Abort (Session × WorldReply)
  | .frameContext _ level viewName =>
    match s.machine.frameContext p.id level with
    | .ok (m, some id) => .ok ((s.withMachine m).registerContext viewName id, .flag true)
    | .ok (m, none) => .ok (s.withMachine m, .flag false)
    | .error message => .error (.panic message)
  | .pushFrame _ code wantResult =>
    let (s, id) := s.codeNamed code
    match (Exec.pushFrame p.id id wantResult).run s.machine with
    | (.ok (), m) => .ok (s.withMachine m, .unit)
    | (.error f, m) => .ok (s.withMachine m, .fault f)
  | .popFrame _ =>
    match p.returnFromFrame none with
    | some p => .ok (s.withMachine (s.machine.setProc p), .flag true)
    | none => .ok (s, .flag false)
  | .pushContext _ ctx =>
    let (s, id) := s.contextNamed ctx
    .ok (s.modifyProcess p.id (·.pushContext id), .unit)
  | .popContext _ =>
    let (p, c) := p.popContext
    .ok (s.withMachine (s.machine.setProc p), .maybeText (c.map s.machine.describe))
  | .markContextTos _ =>
    let (p, tos) := p.markContextTos
    .ok (s.withMachine (s.machine.setProc p), .count tos)
  | .lookup _ var => .ok (s, .values ((s.machine.lookup p var).map s.shown).toList)
  | .pushHandler _ pc => .ok (s.withMachine (s.machine.setProc (p.pushHandler pc)), .unit)
  | .pushHandlerAt _ h =>
    .ok (s.withMachine (s.machine.setProc { p with handlers := p.handlers.push h }), .unit)
  | .popHandler _ =>
    match p.popHandler with
    | some (p, h) => .ok (s.withMachine (s.machine.setProc p), .handler (some h))
    | none => .ok (s, .handler none)
  | .pushValue _ l =>
    let (s, v) := s.resolve l
    match s.machine.proc? p.id with
    | some p =>
      match p.pushValue v with
      | .ok p => .ok (s.withMachine (s.machine.setProc p), .unit)
      | .error f => .ok (s, .fault f)
    | none => .ok (s, .noSuchProcess)
  | .popValue _ =>
    match p.popValue with
    | .ok (p, v) => .ok (s.withMachine (s.machine.setProc p), .values [s.shown v])
    | .error f => .ok (s, .fault f)
  | .pushLock _ h => do
    let id ← s.handle h
    let (m, hold) := s.machine.addHold id
    match p.pushValue (.lock hold id) with
    | .ok p => .ok (s.withMachine (m.setProc p), .unit)
    | .error f => .ok (s.withMachine m, .fault f)
  | .run _ => .ok (s.withMachine (s.machine.run p.id), .unit)
  | .runTemporary _ =>
    let (m, ended) := s.machine.runTemporary p.id
    .ok (s.withMachine m, .flag ended)
  | .setStatus _ st => .ok (s.modifyProcess p.id ({ · with status := st }), .unit)
  | .setRawPriority _ prio => .ok (s.modifyProcess p.id ({ · with priority := prio }), .unit)
  | .setGroup _ g => .ok (s.modifyProcess p.id ({ · with group := g }), .unit)
  | .setRole _ r => .ok (s.modifyProcess p.id ({ · with role := r }), .unit)
  | .setLimits _ l => .ok (s.modifyProcess p.id ({ · with limits := l }), .unit)
  | .load layer source helper r => s.loadStep layer source helper r
  | _ => .ok (s, .unit)

/-- Performs a step that needs no particular process. -/
def performFree (s : Session) : WorldStep → Except Abort (Session × WorldReply)
  | .defineCode name steps =>
    let (s, id) := s.codeNamed name
    let (s, c, replies) := s.buildFresh steps
    .ok (s.withMachine (s.machine.setCode id c), .built replies)
  | .editCode name steps => .ok (s.editCode name steps)
  | .defineContext name object vars => .ok (s.defineContext name object vars, .unit)
  | .contextDefine ctx var l => do
    let s ← s.contextDefine ctx var l
    .ok (s, .unit)
  | .contextLookup ctx var =>
    let (s, id) := s.contextNamed ctx
    .ok (s, .values ((s.machine.contextLookup id var).map s.shown).toList)
  | .contextAssign ctx var l =>
    let (s, id) := s.contextNamed ctx
    let (s, v) := s.resolve l
    match s.machine.contextAssign id var v with
    | .ok (m, done) => .ok (s.withMachine m, .flag done)
    | .error f => .ok (s, .fault f)
  | .contextInfo ctx =>
    let (s, id) := s.contextNamed ctx
    .ok (s, .contextInfo (s.machine.describe id) (s.machine.contextObject id))
  | .create name =>
    let (s, p) := s.onMachine (·.create name)
    .ok (s, .count p.processId)
  | .allocateGroup =>
    let (s, g) := s.onMachine Machine.allocateGroup
    .ok (s, .count g)
  | .startGroup g => .ok (s.withMachine (s.machine.startGroup g), .unit)
  | .runList => .ok (s.withMachine s.machine.runList, .unit)
  | .join pid g => .ok (s.onProcess pid fun m id => m.join id g)
  | .resume pid g => .ok (s.onProcess pid fun m id => m.resume id g)
  | .continueProcess pid => .ok (s.onProcess pid fun m id => m.continueProcess id)
  | .continueWithFailure pid msg => .ok (s.onProcess pid fun m id => m.continueWithFailure id msg)
  | .terminate pid => .ok (s.onProcess pid fun m id => m.terminate id)
  | .resumeSuspended g => let (s, n) := s.onMachine (·.resumeSuspended g); .ok (s, .count n)
  | .setPriority pid prio => .ok (s.onProcess pid fun m id => m.setPriority id prio)
  | .handlePriorityChange pid =>
    match s.machine.lookupPid? pid with
    | some p => .ok (s.withMachine (s.machine.handlePriorityChange p.id), .unit)
    | none => .ok (s, .unit)
  | .removeTerminated => let (s, n) := s.onMachine Machine.removeTerminated; .ok (s, .count n)
  | .running => .ok (s, .maybeCount (s.machine.running.map processIdOf))
  | .byObject o r => .ok (s, .maybeCount ((s.machine.byObject o r).map processIdOf))
  | .count => .ok (s, .count s.machine.procs.size)
  | .config => .ok (s, .config s.machine.config s.machine.config.validate.isOk)
  | .mutexCreate name note owner => .ok (s.obtained (s.machine.locks.create name note owner))
  | .mutexLoad name note owner => .ok (s.obtained (s.machine.locks.load name note owner))
  | .mutexQuery name => .ok (s, .lock ((s.machine.locks.live? name).map s.lockReply))
  | .mutexInfo h => do
    let id ← s.handle h
    .ok (s, .lock (some (s.lockReply id)))
  | .mutexDebug h => do
    let id ← s.handle h
    .ok (s, .text (((s.machine.locks.get? id).map Mutex.debugText).getD ""))
  | .mutexAddRef h => do
    let id ← s.handle h
    .ok (s.modifyLocks (·.addRef id), .unit)
  | .mutexRemoveRef h => do
    let id ← s.handle h
    .ok (s.modifyLocks (·.removeRef id), .unit)
  | .mutexSetOwner h owner => do
    let id ← s.handle h
    .ok (s.modifyLocks (·.setOwner id owner), .unit)
  | .disown pid => .ok (s.modifyLocks (·.disown pid), .unit)
  | .enumMutexes owner => do
    s.registry
    .ok (s, .locks ((s.machine.locks.enum owner).map s.lockReply))
  | .mutexCount => do
    s.registry
    .ok (s, .lockCount s.machine.locks.liveCount)
  | .dropRegistry => .ok (s.modifyLocks LockTable.dropRegistry, .flag false)
  | .attachRegistry => .ok (s.modifyLocks LockTable.attachRegistry, .flag true)
  | .coverageNew => .ok (s.setCoverage {}, .unit)
  | .coverageAdd code => do
    let cov ← s.coverage
    let (s, id) := s.codeNamed code
    let m := s.machine
    .ok (s.setCoverage (cov.add m.code? m.codes.size id), .unit)
  | .coverageSave test => do
    let cov ← s.coverage
    .ok (s, .text (cov.report test))
  | .coverageRegistered => do
    let cov ← s.coverage
    .ok (s, .count cov.registered)
  | .coverageHas code => do
    let cov ← s.coverage
    let (s, id) := s.codeNamed code
    .ok (s, .flag (cov.isRegistered id))
  | .load layer source helper r => s.loadStep layer source helper r
  | .saveIds codes existing => .ok (s.saveIdsStep codes existing)
  | _ => .ok (s, .unit)

/-- Performs one step; a step on a process that does not exist answers `noSuchProcess`. -/
def perform (s : Session) (step : WorldStep) : Except Abort (Session × WorldReply) :=
  match step.target with
  | some pid =>
    match s.machine.lookupPid? pid with
    | some p => s.performOn p step
    | none => .ok (s, .noSuchProcess)
  | none => s.performFree step

/-- Performs the steps in order, releasing what is no longer referred to after each, and
records what the host sees after each. -/
def play (s : Session) : List WorldStep → Except Abort (List StepRecord)
  | [] => .ok []
  | step :: rest => do
    let (s, reply) ← s.perform step
    if s.machine.exhausted then throw .stepLimit
    let (m, events) := s.machine.settle.takeEvents
    let s := s.withMachine m
    let record : StepRecord :=
      { reply := reply, events := events.toList, processes := s.processReports,
        locks := s.lockReports }
    return record :: (← s.play rest)

end Session

end ScriptEngine
