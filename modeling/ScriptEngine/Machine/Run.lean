import ScriptEngine.Machine.Step
import ScriptEngine.Machine.Lifetime
/-!
Running a process until it suspends, terminates, fails or runs out of frames. A frozen or
finished process does not run. Starting a run moves the process's generation on (views of
its frames go dark) and marks it running; a fault left pending for it is raised first.
Each instruction is shown to the coverage recorder before it runs. A fault goes to the
innermost handler; without one the process fails with the fault's message and a trace of
its frames. A temporary run may not suspend: suspending there is a fault. Every run counts
its instructions against the engine's allowance; when that is used up the engine is
marked exhausted and stops.
-/
namespace ScriptEngine

namespace Machine

/-- The frames of a process, innermost first, as `in NAME, line N`. -/
def trace (m : Machine) (p : Process) : List String :=
  p.frames.toList.reverse.map fun f =>
    let c := m.codeOrEmpty f.code
    let name := if c.name.isEmpty then "<anonymous>" else c.name
    match c.lineFor? f.currentPc with
    | some l => "in " ++ name ++ ", line " ++ toString l
    | none => "in " ++ name

/-- Ends a process in `status`: it remembers the object it acted for and its stacks empty. -/
def finish (m : Machine) (pid : Nat) (status : Status) : Machine :=
  match m.proc? pid with
  | none => m
  | some p =>
    let obj := m.invokingObject p
    m.setProc { p with
      finishedObject := obj, frames := #[], contexts := #[], handlers := #[], values := #[],
      contextTos := 0, status := status }

def failWith (m : Machine) (pid : Nat) (message : String) : Machine :=
  match m.proc? pid with
  | none => m
  | some p =>
    let m := m.setProc { p with failure := some ⟨message, m.trace p⟩ }
    m.finish pid .failed

/-- Hands a fault to the innermost handler; without one the process fails. True if a
handler took it. -/
def raise (m : Machine) (pid : Nat) (fault : Fault) : Machine × Bool :=
  match m.proc? pid with
  | none => (m, false)
  | some p =>
    match p.unwind fault with
    | (p, true) => (m.setProc p, true)
    | (p, false) => ((m.setProc p).failWith pid fault.message, false)

def observe (m : Machine) (pid : Nat) : Machine :=
  match m.coverage, m.proc? pid with
  | some cov, some p =>
    match p.frames.back? with
    | some f => { m with coverage := some (cov.observe m.code? m.codes.size f.code f.pc) }
    | none => m
  | _, _ => m

def leaveFrame (m : Machine) (pid : Nat) (value : Option Value) : Machine :=
  match m.proc? pid with
  | some p => match p.returnFromFrame value with
    | some p => m.setProc p
    | none => m
  | none => m

/-- Instructions until the process stops; `fuel` is the allowance left. The allowance runs
out only when an instruction is about to run without any left; a process that ends with the
last of it ends normally. -/
def runLoop (pid : Nat) (temporary : Bool) (fuel : Nat) (m : Machine) : Machine :=
  match m.proc? pid with
  | none => m
  | some p =>
    if p.frames.isEmpty then (m.finish pid .ended).settle
    else
      match fuel with
      | 0 => { m with budget := 0, exhausted := true }
      | fuel + 1 =>
        let m := { (m.observe pid) with budget := fuel }
        let (m, r) := m.step pid
        match r with
        | .ok .continue => runLoop pid temporary fuel m.settle
        | .ok (.ret v) => runLoop pid temporary fuel (m.leaveFrame pid v).settle
        | .ok (.suspend wait) =>
          if temporary then
            match m.raise pid .cannotSuspend with
            | (m, true) => runLoop pid temporary fuel m.settle
            | (m, false) => m.settle
          else (m.modifyProc pid fun p => { p with status := if wait then .waiting else .suspended }).settle
        | .ok .terminate => (m.finish pid .terminated).settle
        | .error e =>
          match m.raise pid e with
          | (m, true) => runLoop pid temporary fuel m.settle
          | (m, false) => m.settle

/-- Runs process `pid`; a temporary run treats suspension as a fault. -/
def execute (m : Machine) (pid : Nat) (temporary : Bool) : Machine :=
  match m.proc? pid with
  | none => m
  | some p =>
    if p.status == .frozen || p.status.isTerminal then m
    else
      let p := { p with generation := p.generation + 1, status := .running }
      match p.pending with
      | some fault =>
        let m := m.setProc { p with pending := none }
        match m.raise pid fault with
        | (m, true) => runLoop pid temporary m.budget m.settle
        | (m, false) => m.settle
      | none => runLoop pid temporary m.budget (m.setProc p)

def run (m : Machine) (pid : Nat) : Machine := m.execute pid false

/-- Runs without allowing suspension; true if the process ended. -/
def runTemporary (m : Machine) (pid : Nat) : Machine × Bool :=
  let m := m.execute pid true
  (m, ((m.proc? pid).map (·.status == .ended)).getD false)

end Machine

end ScriptEngine
