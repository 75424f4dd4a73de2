import ScriptEngine.Value
/-!
Variable contexts: where names that are not locals are looked up. A binding context holds
named values, possibly on behalf of a host object. A frame view shows one frame of a
process: that frame's local variables by name, then the contexts the frame could see. A
view goes dark when the process runs again or goes away (its generation moves on), and its
locals go dark when the frame is popped.
-/
namespace ScriptEngine

/-- Named values, possibly bound to a host object. -/
structure Bindings where
  name : String
  object : Option Nat := none
  vars : List (String × Value) := []
  deriving DecidableEq, Repr

namespace Bindings

def get? (b : Bindings) (n : String) : Option Value := (b.vars.find? (·.1 == n)).map (·.2)

/-- Binds `n`, replacing an earlier binding of it. -/
def define (b : Bindings) (n : String) (v : Value) : Bindings :=
  if b.vars.any (·.1 == n) then
    { b with vars := b.vars.map fun (k, w) => if k == n then (k, v) else (k, w) }
  else { b with vars := b.vars ++ [(n, v)] }

/-- Rebinds `n` if it is bound; `none` otherwise. -/
def assign? (b : Bindings) (n : String) (v : Value) : Option Bindings :=
  if b.vars.any (·.1 == n) then some (b.define n v) else none

end Bindings

/-- A view of one frame: `frame` identifies the frame within process `process`, and the
view answers only while that process's generation is still `generation`. -/
structure FrameView where
  subroutine : String
  process : Nat
  frame : Nat
  localNames : Array String
  visible : Array ContextId
  generation : Nat
  deriving DecidableEq, Repr

inductive Context where
  | bindings (b : Bindings)
  | frameView (v : FrameView)
  deriving DecidableEq, Repr

def Context.describe : Context → String
  | .bindings b => b.name
  | .frameView v => "frame of " ++ v.subroutine

def Context.refersTo : Context → Array ContextId
  | .bindings b => (b.vars.filterMap fun (_, v) => match v with
      | .context c => some c
      | _ => none).toArray
  | .frameView v => v.visible

def Context.values : Context → List Value
  | .bindings b => b.vars.map (·.2)
  | .frameView _ => []

end ScriptEngine
