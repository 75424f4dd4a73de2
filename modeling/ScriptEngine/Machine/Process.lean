import ScriptEngine.Fault
import ScriptEngine.Config.Engine
/-!
Processes: a stack machine with a stack of frames (one per running subroutine), a value
stack shared by all frames, a stack of variable contexts and a stack of exception handlers.
Each frame records how deep the other stacks were when it was entered and sees values and
handlers only above those depths. The value and frame stacks are bounded by the process's
limits. This module holds the operations that touch one process alone.
-/
namespace ScriptEngine

inductive Status where
  | suspended
  | frozen
  | runnable
  | running
  | waiting
  | ended
  | terminated
  | failed
  deriving DecidableEq, Repr

def Status.isTerminal : Status → Bool
  | .ended | .terminated | .failed => true
  | _ => false

def Status.name : Status → String
  | .suspended => "Suspended"
  | .frozen => "Frozen"
  | .runnable => "Runnable"
  | .running => "Running"
  | .waiting => "Waiting"
  | .ended => "Ended"
  | .terminated => "Terminated"
  | .failed => "Failed"

/-- What a process is for: an ordinary process, or a task the host started on its own. -/
inductive Role where
  | standard
  | autoTask
  deriving DecidableEq, Repr

/-- One running subroutine. `index` is its position in the frame stack; `serial` tells this
frame apart from every other frame ever pushed, so that views of its locals can tell whether
it is still there. -/
structure Frame where
  code : CodeId
  pc : Nat := 0
  locals : Array Value
  index : Nat
  serial : Nat
  contextSp : Nat
  contextTos : Nat
  handlerSp : Nat
  valueSp : Nat
  wantResult : Bool
  deriving DecidableEq, Repr

/-- The instruction before `pc`, the one being executed or last executed. -/
def Frame.currentPc (f : Frame) : Nat := f.pc - 1

/-- An exception handler: where to resume and how deep each stack was. -/
structure Handler where
  pc : Nat
  frameSp : Nat
  contextSp : Nat
  valueSp : Nat
  deriving DecidableEq, Repr

/-- Why a process failed, with the frames that were active, innermost first. -/
structure Failure where
  message : String
  trace : List String
  deriving DecidableEq, Repr

def Failure.text (f : Failure) : String :=
  f.message ++ String.join (f.trace.map ("\n  " ++ ·))

structure Process where
  /-- Tells the process apart from every process created before or after it. -/
  id : Nat
  name : String
  status : Status := .suspended
  priority : Int := 50
  group : Nat := 0
  role : Role := .standard
  frames : Array Frame := #[]
  contexts : Array ContextId := #[]
  contextTos : Nat := 0
  handlers : Array Handler := #[]
  values : Array Value := #[]
  result : Option Value := none
  failure : Option Failure := none
  /-- A fault to raise when the process next runs. -/
  pending : Option Fault := none
  finishedObject : Option Nat := none
  limits : Limits := {}
  /-- Moves on whenever the process starts running; views made before then go dark. -/
  generation : Nat := 0
  deriving Repr

/-- The engine counts the ids it hands out in 32 bits, wrapping past `2^32 - 1`: the process
of identity `n` is known by `n` modulo `2^32`. -/
def processIdOf (n : Nat) : Nat := n % 4294967296

namespace Process

/-- The id the process is known by outside the list. -/
def processId (p : Process) : Nat := processIdOf p.id

/-- Values below this depth belong to outer frames. -/
def valueFloor (p : Process) : Nat := (p.frames.back?.map (·.valueSp)).getD 0

def pushValue (p : Process) (v : Value) : Except Fault Process :=
  if p.values.size ≥ p.limits.maxValues then .error .stackOverflow
  else .ok { p with values := p.values.push v }

def popValue (p : Process) : Except Fault (Process × Value) :=
  if p.values.size ≤ p.valueFloor then .error .stackUnderflow
  else match p.values.back? with
    | some v => .ok ({ p with values := p.values.pop }, v)
    | none => .error .stackUnderflow

def peekValue (p : Process) : Except Fault Value :=
  if p.values.size ≤ p.valueFloor then .error .stackUnderflow
  else match p.values.back? with
    | some v => .ok v
    | none => .error .stackUnderflow

/-- Changes the innermost frame, if there is one. -/
def modifyTop (p : Process) (f : Frame → Frame) : Process :=
  match p.frames.back? with
  | some top => { p with frames := p.frames.pop.push (f top) }
  | none => p

/-- Enters a frame for `code` with `numLocals` empty locals, recording the current depths
of the other stacks; fails when the frame stack is full. -/
def pushFrame (p : Process) (code : CodeId) (numLocals serial : Nat) (wantResult : Bool) :
    Except Fault Process :=
  if p.frames.size ≥ p.limits.maxFrames then .error .stackOverflow
  else
    let f : Frame := {
      code := code, locals := Array.replicate numLocals .empty, index := p.frames.size,
      serial := serial,
      contextSp := p.contexts.size, contextTos := p.contexts.size,
      handlerSp := p.handlers.size, valueSp := p.values.size, wantResult := wantResult }
    .ok { p with frames := p.frames.push f, contextTos := p.contexts.size }

/-- Leaves the innermost frame: its result is `value`, or else the top value above the
frame's base if there is one. The stacks go back to the frame's depths, and a wanted
result (the empty value if there is none) goes to the caller's value stack, or becomes the
process's result when no frame is left. `none` when there is no frame. -/
def returnFromFrame (p : Process) (value : Option Value) : Option Process := do
  let f ← p.frames.back?
  let p := { p with frames := p.frames.pop }
  let value := match value with
    | some v => some v
    | none => if p.values.size > f.valueSp then p.values.back? else none
  let p := { p with
    values := p.values.take f.valueSp
    contexts := p.contexts.take f.contextSp
    handlers := p.handlers.take f.handlerSp }
  let p := { p with
    contextTos := (p.frames.back?.map fun g => min g.contextTos p.contexts.size).getD 0 }
  if f.wantResult then
    let v := value.getD .empty
    if p.frames.isEmpty then some { p with result := some v }
    else some { p with values := p.values.push v }
  else some p

def pushHandler (p : Process) (pc : Nat) : Process :=
  { p with handlers := p.handlers.push ⟨pc, p.frames.size, p.contexts.size, p.values.size⟩ }

/-- Removes the innermost handler of the innermost frame, if it has one. -/
def popHandler (p : Process) : Option (Process × Handler) :=
  let floor := (p.frames.back?.map (·.handlerSp)).getD 0
  if p.handlers.size > floor then
    p.handlers.back?.map fun h => ({ p with handlers := p.handlers.pop }, h)
  else none

/-- Transfers control to the innermost usable handler: handlers recorded outside any
frame or above the current frame depth are discarded; the stacks go back to the handler's
depths, the handler's frame resumes at its `pc`, and the fault's message is pushed.
`none` when no handler is usable (all handlers are then gone). -/
def unwind (p : Process) (fault : Fault) : Process × Bool :=
  go p.handlers.size p
where
  go : Nat → Process → Process × Bool
    | 0, p => (p, false)
    | fuel + 1, p =>
      match p.handlers.back? with
      | none => (p, false)
      | some h =>
        let p := { p with handlers := p.handlers.pop }
        if h.frameSp == 0 || h.frameSp > p.frames.size then go fuel p
        else
          let p := { p with
            frames := p.frames.take h.frameSp
            contexts := p.contexts.take h.contextSp
            values := p.values.take h.valueSp }
          let depth := p.contexts.size
          let p := match p.frames.back? with
            | some f =>
              let tos := min f.contextTos depth
              { p with
                frames := p.frames.pop.push { f with pc := h.pc, contextTos := tos }
                contextTos := tos }
            | none => p
          ({ p with values := p.values.push (.str fault.message) }, true)

def pushContext (p : Process) (c : ContextId) : Process := { p with contexts := p.contexts.push c }

def popContext (p : Process) : Process × Option ContextId :=
  let c := p.contexts.back?
  let p := { p with contexts := p.contexts.pop }
  ({ p with contextTos := min p.contextTos p.contexts.size }, c)

/-- Makes every current context visible to the innermost frame. -/
def markContextTos (p : Process) : Process × Nat :=
  let n := p.contexts.size
  ({ p.modifyTop (fun f => { f with contextTos := n }) with contextTos := n }, n)

end Process

end ScriptEngine
