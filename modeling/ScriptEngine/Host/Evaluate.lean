import ScriptEngine.Host.Session
import ScriptEngine.Machine.Schedule
/-!
Applying one operator the way a script does: a unit pushes the operands as literals (equal
operands share one literal entry) and applies the operator, and a fresh process runs it,
wanting its result. The answer is that result, or the message the process failed with.
-/
namespace ScriptEngine

namespace Session

/-- The unit that pushes `operands` and then runs `op`. -/
def operatorCode (operands : List Value) (op : Instr) : Code :=
  (operands.foldl (fun c v => (c.addPushLiteral v).1) Code.empty).addInstr op |>.1

/-- Runs `op` over the operands in a fresh process: its result, or its failure message. -/
def evaluate (s : Session) (op : Instr) (operands : List Literal) : Except String Shown :=
  let (s, vs) := s.resolveAll operands
  let (m, code) := s.machine.addCode (operatorCode vs op)
  let (m, p) := m.create ""
  let pid := p.id
  let m := ((Exec.pushFrame pid code true).run m).2
  let m := m.run pid
  let s := { s with machine := m }
  match m.proc? pid with
  | some p =>
    match p.failure with
    | some f => .error f.message
    | none => .ok (s.shown (p.result.getD .empty))
  | none => .ok .null

end Session

end ScriptEngine
