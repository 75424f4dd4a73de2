import ScriptEngine.Machine.Resolve
import ScriptEngine.Operation.Eval
/-!
Executing one instruction of a process. The instruction at the innermost frame's `pc` runs
after `pc` has moved past it; a frame without an instruction there returns. An instruction
either lets the process continue, returns from the frame (with a value or with the top of
the stack), suspends it, terminates it, or fails with a fault, in which case what it did
before failing stays done.
-/
namespace ScriptEngine

/-- How a process goes on after an instruction. -/
inductive Outcome where
  | continue
  /-- The process waits for the host (`true`) or stops until it is resumed (`false`). -/
  | suspend (wait : Bool)
  | ret (value : Option Value)
  | terminate
  deriving DecidableEq, Repr

/-- A callee frame given the call's arguments as its first locals; its locals grow, with
empty values, when there are more arguments than locals. -/
def Frame.takeArgs (given : Array Value) (f : Frame) : Frame :=
  let locals := if f.locals.size < given.size then
    f.locals ++ Array.replicate (given.size - f.locals.size) .empty else f.locals
  { f with locals := given.zipIdx.foldl (fun ls (v, i) => ls.set! i v) locals }

/-- Instruction execution: faults keep the engine state reached so far. -/
abbrev Exec := ExceptT Fault (StateM Machine)

namespace Exec

def proc (pid : Nat) : Exec Process := do
  match (← get).proc? pid with
  | some p => return p
  | none => throw (.runtimeError .noActiveFrame)

def setProc (p : Process) : Exec Unit := modify fun m => m.setProc p

def liftFault {α : Type} (r : Except Fault α) : Exec α :=
  match r with
  | .ok a => return a
  | .error e => throw e

def push (pid : Nat) (v : Value) : Exec Unit := do
  setProc (← liftFault ((← proc pid).pushValue v))

def pop (pid : Nat) : Exec Value := do
  let (p, v) ← liftFault ((← proc pid).popValue)
  setProc p
  return v

def peek (pid : Nat) : Exec Value := do liftFault ((← proc pid).peekValue)

def topFrame (pid : Nat) : Exec Frame := do
  match (← proc pid).frames.back? with
  | some f => return f
  | none => throw (.runtimeError .noActiveFrame)

def modifyTop (pid : Nat) (f : Frame → Frame) : Exec Unit := do
  setProc ((← proc pid).modifyTop f)

def storeLocal (pid i : Nat) (v : Value) : Exec Unit := do
  let f ← topFrame pid
  if i < f.locals.size then modifyTop pid fun f => { f with locals := f.locals.set! i v }
  else throw (.invalidOperand .localSlot i)

/-- Enters a frame for a unit, relocating the unit first if it still has labels. -/
def pushFrame (pid : Nat) (code : CodeId) (wantResult : Bool) : Exec Unit := do
  let p ← proc pid
  if p.frames.size ≥ p.limits.maxFrames then throw .stackOverflow
  let m ← get
  if (m.codeOrEmpty code).needsRelocation then set (m.modifyCode code Code.relocate)
  let m ← get
  let numLocals := (m.codeOrEmpty code).locals.size
  set { m with nextFrame := m.nextFrame + 1 }
  setProc (← liftFault (p.pushFrame code numLocals m.nextFrame wantResult))

def jump (pid : Nat) (c : Code) (j : Jump) : Exec Unit := do
  if j.symbolic then throw (.runtimeError (.unresolvedLabel j.target))
  if j.target > c.size then throw (.invalidOperand .jumpTarget j.target)
  if j.condition == .handler then
    setProc ((← proc pid).pushHandler j.target)
  else
    let taken ← match j.condition with
      | .ifTrue => pure ((← peek pid).truth == some true)
      | .ifFalse => pure !((← peek pid).truth.getD false)
      | .ifEmpty => pure (← peek pid).isEmpty
      | _ => pure true
    if j.pop then discard (pop pid)
    if taken then modifyTop pid fun f => { f with pc := j.target }

/-- Calls the unit on top of the stack with the `args` values below it as its first
locals. -/
def call (pid args : Nat) (wantResult : Bool) : Exec Unit := do
  let callee ← pop pid
  let id ← match callee with
    | .code id => pure id
    | v => throw (.typeError (.call v.kind))
  let c := (← get).codeOrEmpty id
  if args < c.minArgs then throw .tooFewArguments
  if args > c.maxArgs && !c.varargs then throw .tooManyArguments
  let p ← proc pid
  if p.values.size < p.valueFloor + args then throw .stackUnderflow
  let given := p.values.extract (p.values.size - args) p.values.size
  setProc { p with values := p.values.take (p.values.size - args) }
  pushFrame pid id wantResult
  modifyTop pid (Frame.takeArgs given)

def control (pid : Nat) : Control → Exec Outcome
  | .uncatch => do
    match (← proc pid).popHandler with
    | some (p, _) => setProc p; return .continue
    | none => throw .stackUnderflow
  | .throw => do
    let v ← pop pid
    throw (.userError (v.display (← get).names))
  | .terminate => return .terminate
  | .suspend => return .suspend true
  | .stop => return .suspend false
  | .enter => do
    match ← pop pid with
    | .context c =>
      setProc ((← proc pid).pushContext c).markContextTos.1
      return .continue
    | v => throw (.typeError (.context v.kind))
  | .leave => do
    let f ← topFrame pid
    let p ← proc pid
    if p.contexts.size ≤ f.contextSp then throw .stackUnderflow
    setProc (p.popContext.1.markContextTos.1)
    return .continue
  | .lock => do
    let note ← pop pid
    let name ← pop pid
    let name ← match name with
      | .str s => pure s
      | v => throw (.typeError (.lockName v.kind))
    let m ← get
    let noteText := if note.isEmpty then "" else note.display m.names
    let (locks, mutex) ← liftFault (m.locks.create name noteText (some pid))
    let (m, hold) := { m with locks := locks }.addHold mutex
    set m
    push pid (.lock hold mutex)
    return .continue

/-- Executes instruction `op` of unit `c`, whose `pc` has already moved past it. -/
def instr (pid : Nat) (c : Code) : Instr → Exec Outcome
  | .nop | .label _ => return .continue
  | .pushLiteral i => do
    match c.literal? i with
    | some v => push pid v; return .continue
    | none => throw (.invalidOperand .literal i)
  | .pushLocal i => do
    match (← topFrame pid).locals[i]? with
    | some v => push pid v; return .continue
    | none => throw (.invalidOperand .localSlot i)
  | .storeLocal i => do
    storeLocal pid i (← peek pid)
    return .continue
  | .popLocal i => do
    storeLocal pid i (← pop pid)
    return .continue
  | .pushName i => do
    let name ← match c.name? i with
      | some n => pure n
      | none => throw (.invalidOperand .name i)
    match (← get).lookup (← proc pid) name with
    | some v => push pid v; return .continue
    | none => throw (.unknownIdentifier name)
  | .storeName i => do
    let name ← match c.name? i with
      | some n => pure n
      | none => throw (.invalidOperand .name i)
    let v ← peek pid
    let p ← proc pid
    let (m, done) ← liftFault ((← get).assignName p.contexts.reverse.toList name v)
    set m
    if done then return .continue else throw (.unknownIdentifier name)
  | .binary op => do
    let b ← pop pid
    let a ← pop pid
    push pid (← liftFault (Operation.binary (← get).names op a b))
    return .continue
  | .unary op => do
    let a ← pop pid
    push pid (← liftFault (Operation.unary op a))
    return .continue
  | .drop n => do
    let p ← proc pid
    if p.values.size < p.valueFloor + n then throw .stackUnderflow
    setProc { p with values := p.values.take (p.values.size - n) }
    return .continue
  | .dup d => do
    let p ← proc pid
    if p.values.size < d + 1 || p.values.size - (d + 1) < p.valueFloor then throw .stackUnderflow
    match p.values[p.values.size - (d + 1)]? with
    | some v => push pid v; return .continue
    | none => throw .stackUnderflow
  | .jump j => do
    jump pid c j
    return .continue
  | .call args wantResult => do
    call pid args wantResult
    return .continue
  | .ret 0 => return .ret (some .empty)
  | .ret 1 => return .ret (some (← pop pid))
  | .ret n => throw (.runtimeError (.returnCount n))
  | .control k => control pid k

end Exec

def Machine.step (m : Machine) (pid : Nat) : Machine × Except Fault Outcome :=
  match m.proc? pid with
  | none => (m, .ok (.ret none))
  | some p =>
    match p.frames.back? with
    | none => (m, .ok (.ret none))
    | some f =>
      let c := m.codeOrEmpty f.code
      match c.instr? f.pc with
      | none => (m, .ok (.ret none))
      | some op =>
        let m := m.setProc (p.modifyTop fun f => { f with pc := f.pc + 1 })
        let (r, m) := (Exec.instr pid c op).run m
        (m, r)

end ScriptEngine
