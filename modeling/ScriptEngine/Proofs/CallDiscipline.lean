import ScriptEngine.Proofs.Noninterference
/-!
The call discipline. A call made by frame `F` of a process pops the unit and its `n`
arguments off the caller's part of the value stack and enters a frame for the unit with the
arguments as its first locals. From then on, as long as that frame is entered, whatever the
process does (every instruction of the unit or of what it calls, every return from a frame
above it, every fault caught by a handler of it or of a frame above it) keeps the values
below the arguments, the contexts and the handlers the caller had, and the frames below,
but for their locals; no instruction reads those values either. A normal return from the
frame gives the caller back its stacks, with the result pushed if the call wants one.
-/
namespace ScriptEngine

namespace Machine

open Process

/-- What a call of `n` arguments by the top frame `F` of process `p` in `m`, which leads to
`m₁`, guarantees at each state `m₂` reached while the callee's frame is entered. -/
structure CallKept (pid n : Nat) (w : Bool) (m : Machine) (p : Process) (F : Frame)
    (m₁ m₂ : Machine) : Prop where
  /-- The callee's frame starts at its first instruction with the arguments, in push order,
  as its first locals and empty values after them, above the caller's stacks. -/
  enters : ∃ (id : CodeId) (c : Frame), p.values.back? = some (.code id) ∧
    m₁.proc? pid = some { p with
      frames := (p.frames.pop.push { F with pc := F.pc + 1 }).push c
      values := p.values.take (p.values.size - (n + 1))
      contextTos := p.contexts.size } ∧
    c.code = id ∧ c.pc = 0 ∧ c.valueSp = p.values.size - (n + 1) ∧
    c.contextSp = p.contexts.size ∧ c.handlerSp = p.handlers.size ∧ c.wantResult = w ∧
    ∀ i : Nat, c.locals[i]? = if i < n then p.values[p.values.size - (n + 1) + i]?
      else if i < (m.codeOrEmpty id).locals.size then some .empty else none
  /-- The values below the arguments, the caller's contexts and handlers, and the frames up
  to the caller's, but for their locals, are still there. -/
  kept : ∃ q : Process, m₂.proc? pid = some q ∧ p.frames.size < q.frames.size ∧
    (∀ i, i < p.values.size - (n + 1) → q.values[i]? = p.values[i]?) ∧
    (∀ i, i < p.contexts.size → q.contexts[i]? = p.contexts[i]?) ∧
    (∀ i, i < p.handlers.size → q.handlers[i]? = p.handlers[i]?) ∧
    ∀ i, i < p.frames.size → q.frames[i]?.map Frame.shape =
      (p.frames.pop.push { F with pc := F.pc + 1 })[i]?.map Frame.shape
  /-- The next instruction does not read the values below the arguments. -/
  unread : ∀ vs : Array Value, vs.size = p.values.size - (n + 1) →
    (m₂.replaceBelow pid (p.values.size - (n + 1)) vs).step pid =
      ((m₂.step pid).1.replaceBelow pid (p.values.size - (n + 1)) vs, (m₂.step pid).2)
  /-- Leaving the callee's frame normally resumes the caller after the call, on its stacks
  without the unit and the arguments and with the result if the call wants one. -/
  returns : ∀ (q q' : Process) (v : Option Value), m₂.proc? pid = some q →
    q.frames.size = p.frames.size + 1 → q.returnFromFrame v = some q' →
    q'.frames.map Frame.shape = (p.frames.pop.push { F with pc := F.pc + 1 }).map Frame.shape ∧
    q'.contexts = p.contexts ∧ q'.handlers = p.handlers ∧
    ∃ r, q'.values = if w then (p.values.take (p.values.size - (n + 1))).push r
      else p.values.take (p.values.size - (n + 1))

variable {m m₁ m₂ : Machine} {pid n : Nat} {w : Bool} {p : Process} {F : Frame}

theorem wellFormedAtFound (wf : p.WellFormed) (found : m.proc? pid = some p) :
    m.WellFormedAt pid := by
  intro q hq
  rw [found, Option.some.injEq] at hq
  rw [← hq]
  exact wf

/-- A call made by a well formed process's top frame, from the step that enters the callee
on through every state reached while the callee is entered. -/
theorem callKeepsCaller (wf : p.WellFormed) (found : m.proc? pid = some p)
    (top : p.frames.back? = some F) (op : (m.codeOrEmpty F.code).instr? F.pc = some (.call n w))
    (called : m.step pid = (m₁, .ok .continue))
    (chain : Relation.ReflTransGen (MovesAbove pid p.frames.size) m₁ m₂) :
    CallKept pid n w m p F m₁ m₂ := by
  obtain ⟨id, c, callee, -, entered, code, pc, index, valueSp, contextSp, -, handlerSp, wants,
    locals⟩ := stepCallEnters found top op called
  have framed : 0 < p.frames.size := (backEq top).2
  have caller : (p.frames.pop.push { F with pc := F.pc + 1 }).size = p.frames.size := by
    simp only [Array.size_push, Array.size_pop]
    omega
  -- from the call on, the callee's frame is entered above the caller's
  have wf₁ := (wellFormedAtFound wf found).step called _ entered
  have at₁ : ((p.frames.pop.push { F with pc := F.pc + 1 }).push c)[c.index]? = some c := by
    rw [index, ← caller, Array.getElem?_push_size]
  obtain ⟨q, hq, run⟩ := runningAlong (index ▸ chain) entered (Running.start wf₁ at₁)
  have present : p.frames.size < q.frames.size := by
    rw [← index]
    exact run.framed
  refine ⟨⟨id, c, callee, entered, code, pc, valueSp, contextSp, handlerSp, wants, locals⟩,
    ⟨q, hq, present, ?values, ?contexts, ?handlers, ?frames⟩, ?unread, ?returns⟩
  case values =>
    intro i hi
    rw [run.beneath.values i (valueSp ▸ hi)]
    exact (getElemTake p.values _ i).trans (if_pos hi)
  case contexts => exact fun i hi => run.beneath.contexts i (contextSp ▸ hi)
  case handlers => exact fun i hi => run.beneath.handlers i (handlerSp ▸ hi)
  case frames =>
    intro i hi
    rw [run.beneath.frames i (index ▸ hi)]
    exact congrArg (Option.map Frame.shape) (pushBelow (caller ▸ hi))
  case unread =>
    intro vs hv
    refine stepReplace m₂ hv fun q' hq' => ?_
    rw [hq, Option.some.injEq] at hq'
    rw [← hq', ← valueSp]
    exact ⟨run.floor, run.fits.1⟩
  case returns =>
    intro q₀ q' v hq₀ size left
    rw [hq, Option.some.injEq] at hq₀
    subst hq₀
    obtain ⟨-, frames, contexts, handlers, r, values⟩ :=
      run.returns (index ▸ size) (index ▸ framed) left
    refine ⟨Array.ext_getElem? fun i => ?_, ?_, ?_, r, ?_⟩
    · rw [Array.getElem?_map, Array.getElem?_map, frames i, index, ← caller]
      simp
    · rw [contexts, contextSp]
      simp
    · rw [handlers, handlerSp]
      simp
    · rw [values, wants, valueSp]
      simp

/-- A unit that pushes itself and calls itself with no arguments: its process, one
instruction in, makes a call that keeps its caller. -/
theorem selfCallKeepsCaller :
    ∃ (m m₁ : Machine) (p : Process) (F : Frame), m.proc? 1 = some p ∧ p.WellFormed ∧
      p.frames.back? = some F ∧ (m.codeOrEmpty F.code).instr? F.pc = some (.call 0 false) ∧
      m.step 1 = (m₁, .ok .continue) ∧ CallKept 1 0 false m p F m₁ m₁ := by
  let unit : Code := { instrs := #[.pushLiteral 0, .call 0 false], literals := #[.code ⟨0⟩] }
  let m₀ := ((Exec.pushFrame 1 ⟨0⟩ false).run (({ codes := #[unit] } : Machine).create "main").1).2
  let m := (m₀.step 1).1
  have reach : m₀.Reachable := .pushFrame 1 ⟨0⟩ false (.create "main" (@Reachable.start _ rfl))
  have wfm : m.WellFormedAt 1 := (reach.wellFormed 1).step (Prod.eta _).symm
  have entered : (m.proc? 1).isSome := by decide +kernel
  obtain ⟨p, found⟩ := Option.isSome_iff_exists.mp entered
  have calls : ((m.proc? 1).bind fun p => p.frames.back?).any
      (fun F => (m.codeOrEmpty F.code).instr? F.pc == some (.call 0 false)) := by decide +kernel
  rw [found, Option.bind_some, Option.any_eq_true] at calls
  obtain ⟨F, top, op⟩ := calls
  have continues : (m.step 1).2.toOption = some .continue := by decide +kernel
  have called : m.step 1 = ((m.step 1).1, .ok .continue) := by
    rcases h : m.step 1 with ⟨m₁, _ | r⟩
    · rw [h] at continues
      cases continues
    · rw [h] at continues
      cases continues
      rfl
  exact ⟨m, _, p, F, found, wfm p found, top, beq_iff_eq.mp op, called,
    callKeepsCaller (wfm p found) found top (beq_iff_eq.mp op) called .refl⟩

end Machine

end ScriptEngine
