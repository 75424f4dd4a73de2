import ScriptEngine.Machine.State
/-!
Name resolution through variable contexts. A process looks a name up in its contexts from
the innermost out, and assigns to the first context that has the name. A frame view
answers for the locals of its frame while the view is valid and the frame is still there,
and otherwise for the contexts its frame could see; the host object a context acts for is
that of the innermost context that has one. Views only refer to contexts made before them,
so `fuel` (the number of contexts) bounds the recursion.
-/
namespace ScriptEngine

namespace Machine

/-- A view is valid while its process exists and has not run since the view was made. -/
def viewValid (m : Machine) (v : FrameView) : Bool :=
  match m.proc? v.process with
  | some p => p.generation == v.generation
  | none => false

/-- The locals of the frame a view shows, while that frame is on its process's stack. -/
def viewLocals? (m : Machine) (v : FrameView) : Option (Array Value) := do
  let p ← m.proc? v.process
  let f ← p.frames.find? (·.serial == v.frame)
  return f.locals

/-- Writes local `i` of the frame a view shows; false when `i` is out of range. -/
def setViewLocal (m : Machine) (v : FrameView) (i : Nat) (x : Value) : Machine × Bool :=
  match m.proc? v.process with
  | none => (m, false)
  | some p =>
    match p.frames.findIdx? (·.serial == v.frame) with
    | none => (m, false)
    | some k =>
      match p.frames[k]? with
      | some f =>
        if i < f.locals.size then
          (m.setProc { p with frames := p.frames.set! k { f with locals := f.locals.set! i x } }, true)
        else (m, false)
      | none => (m, false)

def lookupIn (m : Machine) : Nat → ContextId → String → Option Value
  | 0, _, _ => none
  | fuel + 1, id, name =>
    match m.context? id with
    | some (.bindings b) => b.get? name
    | some (.frameView v) =>
      if !m.viewValid v then none
      else match v.localNames.findIdx? (· == name) with
        | some i => (m.viewLocals? v).bind (·[i]?)
        | none => v.visible.reverse.toList.findSome? fun c => m.lookupIn fuel c name
    | none => none

/-- Assigns through one context: true if the context had the name. A view that went dark
refuses. -/
def assignIn (m : Machine) : Nat → ContextId → String → Value → Except Fault (Machine × Bool)
  | 0, _, _, _ => .ok (m, false)
  | fuel + 1, id, name, x =>
    match m.context? id with
    | some (.bindings b) =>
      match b.assign? name x with
      | some b => .ok (m.setContext id (.bindings b), true)
      | none => .ok (m, false)
    | some (.frameView v) =>
      if !m.viewValid v then .error (.entityUnavailable (.frameOf v.subroutine))
      else match v.localNames.findIdx? (· == name) with
        | some i =>
          if (m.viewLocals? v).isNone then .error (.entityUnavailable (.frameOf v.subroutine))
          else .ok (m.setViewLocal v i x)
        | none => firstAssign fuel m v.visible.reverse.toList name x
    | none => .ok (m, false)
where
  /-- Assigns through the first of `cs` that has the name. -/
  firstAssign (fuel : Nat) (m : Machine) : List ContextId → String → Value →
      Except Fault (Machine × Bool)
    | [], _, _ => .ok (m, false)
    | c :: cs, name, x => do
      let (m, done) ← assignIn m fuel c name x
      if done then return (m, true) else firstAssign fuel m cs name x

def objectOf (m : Machine) : Nat → ContextId → Option Nat
  | 0, _ => none
  | fuel + 1, id =>
    match m.context? id with
    | some (.bindings b) => b.object
    | some (.frameView v) => v.visible.reverse.toList.findSome? (m.objectOf fuel)
    | none => none

def contextFuel (m : Machine) : Nat := m.contexts.size + 1

def contextLookup (m : Machine) (id : ContextId) (name : String) : Option Value :=
  m.lookupIn m.contextFuel id name

def contextAssign (m : Machine) (id : ContextId) (name : String) (x : Value) :
    Except Fault (Machine × Bool) :=
  m.assignIn m.contextFuel id name x

def contextObject (m : Machine) (id : ContextId) : Option Nat := m.objectOf m.contextFuel id

/-- Looks a name up in a process's contexts, innermost first. -/
def lookup (m : Machine) (p : Process) (name : String) : Option Value :=
  p.contexts.reverse.toList.findSome? fun c => m.contextLookup c name

/-- Assigns a name in the innermost of a process's contexts that has it; false if none
has it. -/
def assignName (m : Machine) (contexts : List ContextId) (name : String) (x : Value) :
    Except Fault (Machine × Bool) :=
  match contexts with
  | [] => .ok (m, false)
  | c :: cs => do
    let (m, done) ← m.contextAssign c name x
    if done then return (m, true) else assignName m cs name x

/-- The host object a process acts for: that of its innermost context with one, or the one
it acted for when it finished. -/
def invokingObject (m : Machine) (p : Process) : Option Nat :=
  match p.contexts.reverse.toList.findSome? m.contextObject with
  | some o => some o
  | none => p.finishedObject

/-- A view of the frame `level` frames below the top of process `pid`, showing its locals
and the contexts visible to it. -/
def makeFrameContext (m : Machine) (pid level : Nat) : Machine × Option ContextId :=
  match m.proc? pid with
  | none => (m, none)
  | some p =>
    if level + 1 > p.frames.size then (m, none)
    else match p.frames[p.frames.size - (level + 1)]? with
      | none => (m, none)
      | some f =>
        let code := m.codeOrEmpty f.code
        let view : FrameView := {
          subroutine := code.name, process := pid, frame := f.serial,
          localNames := code.locals, visible := p.contexts.take (min f.contextTos p.contexts.size),
          generation := p.generation }
        let (m, id) := m.addContext (.frameView view)
        (m, some id)

/-- `makeFrameContext` on machine words, as the engine runs it: a level is a word, and at the
largest word `level + 1` wraps round to 0, so the frame read is the one at index
`frames.size`, past the end, and the engine stops with the runtime's message. -/
def frameContext (m : Machine) (pid level : Nat) : Except String (Machine × Option ContextId) :=
  match m.proc? pid with
  | some p =>
    if level = 18446744073709551615 then
      .error ("index out of bounds: the len is " ++ toString p.frames.size ++ " but the index is " ++
        toString p.frames.size)
    else .ok (m.makeFrameContext pid level)
  | none => .ok (m.makeFrameContext pid level)

end Machine

end ScriptEngine
