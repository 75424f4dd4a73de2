import ScriptEngine.Machine.State
/-!
How long contexts and held lock references live. A context or held reference lives while a
value, a process or the host refers to it, directly or through other living contexts; the
things that refer are the literal pools of all code units, the processes' value stacks,
frame locals, results and context stacks, and the contexts the host keeps. Settling takes
away, again and again, what has no living referrer, so a group of contexts that refer to
one another in a ring keeps living when nothing else refers to it. A held reference that
dies gives its reference back to its lock.
-/
namespace ScriptEngine

namespace Machine

/-- The values the engine itself holds, outside of contexts. -/
def rootValues (m : Machine) : List Value :=
  (m.codes.toList.flatMap fun c => c.literals.toList) ++
    m.procs.toList.flatMap fun p =>
      p.values.toList ++ (p.frames.toList.flatMap fun f => f.locals.toList) ++ p.result.toList

/-- Contexts and held references referred to by some values. -/
def referred (vs : List Value) : List ContextId × List HoldId :=
  vs.foldl (fun (acc : List ContextId × List HoldId) v => match v with
    | .context c => (c :: acc.1, acc.2)
    | .lock h _ => (acc.1, h :: acc.2)
    | _ => acc) ([], [])

def markAll (n : Nat) (ids : List Nat) : Array Bool :=
  ids.foldl (fun a i => if i < n then a.set! i true else a) (Array.replicate n false)

/-- The contexts among `alive` that something living refers to: the roots or a context of
`alive`. -/
def stillReferred (m : Machine) (roots : List ContextId) (alive : Array Bool) : Array Bool :=
  let fromContexts := m.contexts.toList.zipIdx.flatMap fun (c, i) =>
    if alive[i]?.getD false then
      (c.values.foldl (fun acc v => match v with
        | .context d => d :: acc
        | _ => acc) []) ++ (match c with
          | .frameView v => v.visible.toList
          | .bindings _ => [])
    else []
  let marked := markAll m.contexts.size ((roots ++ fromContexts).map (·.index))
  alive.zipWith (· && ·) marked

/-- Repeats `stillReferred` until nothing more goes. -/
def settleContexts (m : Machine) (roots : List ContextId) : Nat → Array Bool → Array Bool
  | 0, alive => alive
  | fuel + 1, alive =>
    let next := m.stillReferred roots alive
    if next == alive then alive else m.settleContexts roots fuel next

/-- Ends every context and held reference that nothing living refers to; each held
reference that ends gives its reference back to its lock. -/
def settle (m : Machine) : Machine :=
  if !m.holds.any (·.live) then m
  else
    let (valueContexts, valueHolds) := referred m.rootValues
    let roots := valueContexts ++ m.hostContexts.toList ++
      m.procs.toList.flatMap fun p => p.contexts.toList
    let alive := m.settleContexts roots (m.contexts.size + 1) m.contextLive
    let contextHolds := m.contexts.toList.zipIdx.flatMap fun (c, i) =>
      if alive[i]?.getD false then (referred c.values).2 else []
    let held := markAll m.holds.size ((valueHolds ++ contextHolds).map (·.index))
    let (holds, locks) := m.holds.zipIdx.foldl (fun (acc : Array Hold × LockTable) (h, i) =>
      if h.live && !(held[i]?.getD false) then
        (acc.1.push { h with live := false }, acc.2.removeRef h.mutex)
      else (acc.1.push h, acc.2)) (#[], m.locks)
    { m with contextLive := alive, holds := holds, locks := locks }

end Machine

end ScriptEngine
