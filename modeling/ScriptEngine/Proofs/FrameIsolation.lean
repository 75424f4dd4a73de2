import ScriptEngine.Proofs.Calls
/-!
What a frame owns. A frame `c` entered by a call sees the value, context and handler stacks
only above the depths it recorded on entry, and the frames below it only through views of
their locals. `Process.Running p c q` says that `q` is `p` run on with `c` still entered:
every instruction, every return from a frame above `c`, every fault caught by a handler of
`c` or of a frame above it keeps the stacks below `c`'s depths and the frames below `c` but
for their locals, and `c` itself moves on only to its next instruction. Leaving `c`
normally then gives back the stacks its caller had, with the result pushed if `c` wants
one. `Process.Moves` lists what a run does to a process; the run loop does nothing else.
-/
namespace ScriptEngine

/-- A frame apart from its locals, which views of the frame may write. -/
def Frame.shape (f : Frame) : Frame := { f with locals := #[] }

theorem Frame.Retains.refl (f : Frame) : f.Retains f := rfl

theorem Frame.Retains.trans {f g h : Frame} (fg : f.Retains g) (gh : g.Retains h) :
    f.Retains h := by
  unfold Frame.Retains at *
  rw [gh, fg]

theorem Frame.Retains.withLocals {f g : Frame} (fg : f.Retains g) (ls : Array Value) :
    f.Retains { g with locals := ls } := by
  unfold Frame.Retains at *
  rw [fg]

theorem Frame.Retains.shape {f g : Frame} (fg : f.Retains g) (pc : g.pc = f.pc)
    (tos : g.contextTos = f.contextTos) : g.shape = f.shape := by
  unfold Frame.Retains at fg
  rw [fg, pc, tos]
  rfl

namespace Process

/-- What a run does to a process: an instruction's change, a write through a view of a
frame's locals, leaving the top frame, a fault caught by a handler, the end of the process,
or a change of its status that leaves the stacks alone. -/
inductive Moves (p : Process) : Process → Prop where
  | step {q : Process} (step : p.Step q) : Moves p q
  | locals (k : Nat) (f : Frame) (ls : Array Value) (at_ : p.frames[k]? = some f) :
      Moves p { p with frames := p.frames.set! k { f with locals := ls } }
  | leave {q : Process} (value : Option Value) (left : p.returnFromFrame value = some q) :
      Moves p q
  | unwind {q : Process} (fault : Fault) (caught : p.unwind fault = (q, true)) : Moves p q
  | halt {q : Process} (ended : q.frames = #[]) : Moves p q
  | relabel {q : Process} (frames : q.frames = p.frames) (limits : q.limits = p.limits)
      (values : q.values = p.values) (contexts : q.contexts = p.contexts)
      (handlers : q.handlers = p.handlers) (tos : q.contextTos = p.contextTos) : Moves p q

theorem Moves.self (p : Process) : p.Moves p := .relabel rfl rfl rfl rfl rfl rfl

/-- `q` agrees with `p` beneath frame `c`: on the stacks below `c`'s depths and on the
frames below it but for their locals; the frame at `c`'s place only moved on. -/
structure Beneath (c : Frame) (p q : Process) : Prop where
  values : ∀ i, i < c.valueSp → q.values[i]? = p.values[i]?
  contexts : ∀ i, i < c.contextSp → q.contexts[i]? = p.contexts[i]?
  handlers : ∀ i, i < c.handlerSp → q.handlers[i]? = p.handlers[i]?
  frames : ∀ i, i < c.index → q.frames[i]?.map Frame.shape = p.frames[i]?.map Frame.shape
  callee : ∀ f, p.frames[c.index]? = some f → ∃ g, q.frames[c.index]? = some g ∧ f.Retains g

theorem Beneath.refl (c : Frame) (p : Process) : Beneath c p p :=
  ⟨fun _ _ => rfl, fun _ _ => rfl, fun _ _ => rfl, fun _ _ => rfl, fun f hf => ⟨f, hf, rfl⟩⟩

theorem Beneath.trans {c : Frame} {p q r : Process} (pq : Beneath c p q) (qr : Beneath c q r) :
    Beneath c p r where
  values i hi := (qr.values i hi).trans (pq.values i hi)
  contexts i hi := (qr.contexts i hi).trans (pq.contexts i hi)
  handlers i hi := (qr.handlers i hi).trans (pq.handlers i hi)
  frames i hi := (qr.frames i hi).trans (pq.frames i hi)
  callee f hf := by
    obtain ⟨g, hg, fg⟩ := pq.callee f hf
    obtain ⟨h, hh, gh⟩ := qr.callee g hg
    exact ⟨h, hh, fg.trans gh⟩

/-- `q` is `p` run on while `p`'s frame `c` is still entered. -/
structure Running (p : Process) (c : Frame) (q : Process) : Prop where
  wf : q.WellFormed
  entered : p.frames[c.index]? = some c
  beneath : Beneath c p q

theorem Running.start {p : Process} {c : Frame} (wf : p.WellFormed)
    (entered : p.frames[c.index]? = some c) : Running p c p :=
  ⟨wf, entered, .refl c p⟩

variable {p q q' : Process} {c : Frame}

theorem Running.callee (run : Running p c q) : ∃ g, q.frames[c.index]? = some g ∧ c.Retains g :=
  run.beneath.callee c run.entered

theorem Running.framed (run : Running p c q) : c.index < q.frames.size := by
  obtain ⟨g, hg, -⟩ := run.callee
  exact (Array.getElem?_eq_some_iff.mp hg).1

theorem Running.above (run : Running p c q) {i : Nat} {f : Frame} (hf : q.frames[i]? = some f)
    (hi : c.index ≤ i) :
    c.valueSp ≤ f.valueSp ∧ c.contextSp ≤ f.contextSp ∧ c.handlerSp ≤ f.handlerSp := by
  obtain ⟨g, hg, cg⟩ := run.callee
  have := run.wf.nested _ _ g f hi hg hf
  have same := cg.depths
  simp only [Frame.depths, Prod.mk.injEq] at same
  omega

theorem Running.top (run : Running p c q) {f : Frame} (top : q.frames.back? = some f) :
    c.valueSp ≤ f.valueSp ∧ c.contextSp ≤ f.contextSp ∧ c.handlerSp ≤ f.handlerSp := by
  have := run.framed
  exact run.above (backEq top).1 (by omega)

theorem Running.fits (run : Running p c q) :
    c.valueSp ≤ q.values.size ∧ c.contextSp ≤ q.contexts.size ∧
      c.handlerSp ≤ q.handlers.size := by
  obtain ⟨g, hg, cg⟩ := run.callee
  have := run.wf.below hg
  have same := cg.depths
  simp only [Frame.depths, Prod.mk.injEq] at same
  omega

theorem Running.floor (run : Running p c q) : c.valueSp ≤ q.valueFloor := by
  have framed : 0 < q.frames.size := by have := run.framed; omega
  obtain ⟨t, top⟩ := backSome (Array.size_pos_iff.mp framed)
  rw [valueFloorTop top]
  exact (run.top top).1

theorem Running.of (run : Running p c q) (wf : q'.WellFormed) (next : Beneath c q q') :
    Running p c q' :=
  ⟨wf, run.entered, run.beneath.trans next⟩

/-! One instruction's change. -/

theorem pushBelow {α : Type} {xs : Array α} {x : α} {i : Nat} (h : i < xs.size) :
    (xs.push x)[i]? = xs[i]? := by
  rw [Array.getElem?_push, if_neg (by omega)]

theorem beneathStacks (frames : q'.frames = q.frames)
    (values : ∀ i, i < c.valueSp → q'.values[i]? = q.values[i]?)
    (contexts : ∀ i, i < c.contextSp → q'.contexts[i]? = q.contexts[i]?)
    (handlers : ∀ i, i < c.handlerSp → q'.handlers[i]? = q.handlers[i]?) : Beneath c q q' where
  values := values
  contexts := contexts
  handlers := handlers
  frames i _ := by rw [frames]
  callee f hf := ⟨f, by rw [frames]; exact hf, .refl f⟩

theorem beneathModifyTop {g : Frame → Frame} (framed : c.index < q.frames.size)
    (keeps : ∀ f : Frame, f.Retains (g f)) : Beneath c q (q.modifyTop g) where
  values i _ := by rw [modifyTopValues]
  contexts i _ := by rw [modifyTopContexts]
  handlers i _ := by rw [modifyTopHandlers]
  frames i hi := by rw [modifyTopAt, if_neg (by omega)]
  callee f hf := by
    rw [modifyTopAt, hf]
    split
    · exact ⟨g f, rfl, keeps f⟩
    · exact ⟨f, rfl, .refl f⟩

theorem beneathMarkContextTos (framed : c.index < q.frames.size) :
    Beneath c q q.markContextTos.1 :=
  have keeps : ∀ f : Frame, f.Retains { f with contextTos := q.contexts.size } := fun _ => rfl
  have moved := beneathModifyTop framed keeps
  ⟨moved.values, moved.contexts, moved.handlers, moved.frames, moved.callee⟩

theorem Running.stepBeneath (run : Running p c q) (step : q.Step q') : Beneath c q q' := by
  obtain ⟨vfits, cfits, hfits⟩ := run.fits
  have framed := run.framed
  have floor := run.floor
  cases step with
  | push v room =>
    exact beneathStacks rfl (fun i hi => pushBelow (by omega)) (fun _ _ => rfl) (fun _ _ => rfl)
  | pop above =>
    exact beneathStacks rfl (fun i hi => by rw [Array.getElem?_pop, if_pos (by omega)])
      (fun _ _ => rfl) (fun _ _ => rfl)
  | drop n above =>
    exact beneathStacks rfl (fun i hi => by rw [getElemTake, if_pos (by omega)])
      (fun _ _ => rfl) (fun _ _ => rfl)
  | retop g keeps => exact beneathModifyTop framed keeps
  | enter c₀ =>
    have pushed : Beneath c q (q.pushContext c₀) :=
      beneathStacks rfl (fun _ _ => rfl) (fun i hi => pushBelow (by omega)) (fun _ _ => rfl)
    exact pushed.trans (beneathMarkContextTos framed)
  | leave f top above =>
    have := (run.top top).2.1
    have popped : Beneath c q q.popContext.1 := beneathStacks rfl (fun _ _ => rfl)
      (fun i hi => by rw [popContext, Array.getElem?_pop, if_pos (by omega)]) (fun _ _ => rfl)
    exact popped.trans (beneathMarkContextTos framed)
  | pushFrame code n serial w pushed =>
    obtain ⟨-, rfl⟩ := pushFrameOk pushed
    refine ⟨fun _ _ => rfl, fun _ _ => rfl, fun _ _ => rfl, fun i hi => ?_, fun f hf => ?_⟩
    · exact congrArg (Option.map Frame.shape) (pushBelow (by omega))
    · exact ⟨f, (pushBelow framed).trans hf, .refl f⟩
  | pushHandler pc framed' =>
    exact beneathStacks rfl (fun _ _ => rfl) (fun _ _ => rfl) (fun i hi => pushBelow (by omega))
  | popHandler popped =>
    obtain ⟨above, -, rfl⟩ := popHandlerSome popped
    obtain ⟨t, top⟩ := backSome (Array.size_pos_iff.mp (by omega : 0 < q.frames.size))
    have := (run.top top).2.2
    simp only [top, Option.map_some, Option.getD_some] at above
    exact beneathStacks rfl (fun _ _ => rfl) (fun _ _ => rfl)
      (fun i hi => by rw [Array.getElem?_pop, if_pos (by omega)])

theorem Running.step (run : Running p c q) (step : q.Step q') : Running p c q' :=
  run.of (step.wellFormed run.wf) (run.stepBeneath step)

/-! What a run does besides instructions. -/

theorem beneathLocals {k : Nat} {f : Frame} (hf : q.frames[k]? = some f) (ls : Array Value) :
    Beneath c q { q with frames := q.frames.set! k { f with locals := ls } } where
  values _ _ := rfl
  contexts _ _ := rfl
  handlers _ _ := rfl
  frames i _ := by
    rw [Array.set!_eq_setIfInBounds, Array.getElem?_setIfInBounds]
    split
    · rename_i same
      subst same
      rw [if_pos (Array.getElem?_eq_some_iff.mp hf).1, hf]
      rfl
    · rfl
  callee g hg := by
    rw [Array.set!_eq_setIfInBounds, Array.getElem?_setIfInBounds]
    split
    · rename_i same
      subst same
      rw [hf, Option.some.injEq] at hg
      subst hg
      exact ⟨_, if_pos (Array.getElem?_eq_some_iff.mp hf).1, (Frame.Retains.refl _).withLocals ls⟩
    · exact ⟨g, hg, .refl g⟩

theorem Running.leave (run : Running p c q) {v : Option Value}
    (left : q.returnFromFrame v = some q') (present : c.index < q'.frames.size) :
    Running p c q' := by
  have wf := run.wf.returnFromFrame left
  obtain ⟨f, top, vs, r, rfl, hvs⟩ := returnFromFrameSome left
  obtain ⟨hf, pos⟩ := backEq top
  have framed : c.index < q.frames.size - 1 := by simpa using present
  obtain ⟨vabove, cabove, habove⟩ := run.above hf (by omega)
  have fits := run.wf.top f top
  obtain ⟨vfits, -, -⟩ := run.fits
  refine run.of wf ⟨fun i hi => ?_, fun i hi => ?_, fun i hi => ?_, fun i hi => ?_, fun g hg => ?_⟩
  · have kept : (q.values.take f.valueSp)[i]? = q.values[i]? := by
      rw [getElemTake, if_pos (by omega)]
    rcases hvs with rfl | ⟨w, rfl⟩
    · exact kept
    · exact (pushBelow (by simp; omega)).trans kept
  · exact (getElemTake _ _ _).trans (if_pos (by omega))
  · exact (getElemTake _ _ _).trans (if_pos (by omega))
  · exact congrArg (Option.map Frame.shape) (Array.getElem?_pop.trans (if_pos (by omega)))
  · exact ⟨g, Array.getElem?_pop.trans ((if_pos framed).trans hg), .refl g⟩

theorem Running.unwind (run : Running p c q) {e : Fault} (caught : q.unwind e = (q', true))
    (present : c.index < q'.frames.size) : Running p c q' := by
  have wf : q'.WellFormed := by
    have := run.wf.unwind e
    rwa [caught] at this
  cases hb : q.handlers.back? with
  | none =>
    rw [unwindEmpty e (Array.back?_eq_none_iff.mp hb)] at caught
    cases caught
  | some h =>
    obtain ⟨hk, -⟩ := backEq hb
    obtain ⟨f, hf, framed, eq⟩ := run.wf.unwindCatch e hb
    obtain ⟨f', hf', -, low, -, hv, hc⟩ := run.wf.owned _ h hk
    rw [hf, Option.some.injEq] at hf'
    subst hf'
    rw [eq, Prod.mk.injEq] at caught
    obtain ⟨rfl, -⟩ := caught
    have within : h.frameSp ≤ q.frames.size := by
      have := (Array.getElem?_eq_some_iff.mp hf).1
      omega
    have size : (q.frames.take h.frameSp).pop.size = h.frameSp - 1 := by simp; omega
    have below : c.index < h.frameSp := by
      simp only [Array.size_push, size] at present
      omega
    obtain ⟨vabove, cabove, habove⟩ := run.above hf (by omega)
    obtain ⟨vfits, -, -⟩ := run.fits
    -- below the resumed frame the frames are those of `q`
    have kept : ∀ i, i < h.frameSp - 1 → ((q.frames.take h.frameSp).pop.push
        { f with pc := h.pc, contextTos := min f.contextTos (q.contexts.take h.contextSp).size })[i]? =
          q.frames[i]? := by
      intro i hi
      rw [pushBelow (by omega), Array.getElem?_pop, if_pos (by simp; omega), getElemTake,
        if_pos (by omega)]
    refine run.of wf ⟨fun i hi => ?_, fun i hi => ?_, fun i hi => ?_, fun i hi => ?_, fun g hg => ?_⟩
    · rw [pushBelow (by simp; omega), getElemTake, if_pos (by omega)]
    · exact (getElemTake _ _ _).trans (if_pos (by omega))
    · exact Array.getElem?_pop.trans (if_pos (by omega))
    · exact congrArg (Option.map Frame.shape) (kept i (by omega))
    · by_cases resumed : c.index = h.frameSp - 1
      · rw [resumed, hf, Option.some.injEq] at hg
        subst hg
        refine ⟨{ f with pc := h.pc, contextTos := min f.contextTos (q.contexts.take h.contextSp).size },
          ?_, rfl⟩
        rw [resumed, Array.getElem?_push, if_pos size.symm]
      · exact ⟨g, (kept _ (by omega)).trans hg, .refl g⟩

theorem Running.moves (run : Running p c q) (move : q.Moves q')
    (present : c.index < q'.frames.size) : Running p c q' := by
  cases move with
  | step step => exact run.step step
  | locals k f ls hf => exact run.of (run.wf.setLocals hf ls) (beneathLocals hf ls)
  | leave v left => exact run.leave left present
  | unwind e caught => exact run.unwind caught present
  | halt ended => simp [ended] at present
  | relabel frames limits values contexts handlers tos =>
    refine run.of (run.wf.ofStacks frames limits values contexts handlers tos) ?_
    exact ⟨fun i _ => by rw [values], fun i _ => by rw [contexts], fun i _ => by rw [handlers],
      fun i _ => by rw [frames], fun g hg => ⟨g, by rw [frames]; exact hg, .refl g⟩⟩

/-! Leaving the frame. -/

theorem takeAgree {α : Type} {xs ys : Array α} {n : Nat} (agree : ∀ i, i < n → xs[i]? = ys[i]?) :
    xs.take n = ys.take n := by
  apply Array.ext_getElem?
  intro i
  rw [getElemTake, getElemTake]
  split
  · exact agree i (by assumption)
  · rfl

theorem returnToCaller {v : Option Value} {f : Frame} (top : q.frames.back? = some f)
    (caller : q.frames.pop ≠ #[]) (left : q.returnFromFrame v = some q') :
    q'.frames = q.frames.pop ∧ q'.contexts = q.contexts.take f.contextSp ∧
      q'.handlers = q.handlers.take f.handlerSp ∧
      ∃ r, q'.values = if f.wantResult then (q.values.take f.valueSp).push r
        else q.values.take f.valueSp := by
  unfold returnFromFrame at left
  have full : q.frames.pop.isEmpty = false := by simpa using caller
  simp only [top, bind, Option.bind, full] at left
  by_cases hw : f.wantResult = true
  · simp only [hw, if_true, if_false, Option.some.injEq, Bool.false_eq_true] at left
    subst left
    exact ⟨rfl, rfl, rfl, _, by rw [if_pos hw]⟩
  · simp only [hw, if_false, Option.some.injEq, Bool.false_eq_true] at left
    subst left
    exact ⟨rfl, rfl, rfl, .empty, by rw [if_neg hw]⟩

theorem Running.returns (run : Running p c q) (top : q.frames.size = c.index + 1)
    (caller : 0 < c.index) {v : Option Value} (left : q.returnFromFrame v = some q') :
    q'.frames.size = c.index ∧
      (∀ i : Nat, q'.frames[i]?.map Frame.shape = (p.frames.take c.index)[i]?.map Frame.shape) ∧
      q'.contexts = p.contexts.take c.contextSp ∧ q'.handlers = p.handlers.take c.handlerSp ∧
      ∃ r, q'.values = if c.wantResult then (p.values.take c.valueSp).push r
        else p.values.take c.valueSp := by
  obtain ⟨g, hg, cg⟩ := run.callee
  have back : q.frames.back? = some g := by
    rw [Array.back?_eq_getElem?, top, Nat.add_sub_cancel]
    exact hg
  have full : q.frames.pop ≠ #[] := by
    rw [← Array.size_pos_iff, Array.size_pop]
    omega
  obtain ⟨frames, contexts, handlers, r, values⟩ := returnToCaller back full left
  have same : g.valueSp = c.valueSp ∧ g.contextSp = c.contextSp ∧ g.handlerSp = c.handlerSp ∧
      g.wantResult = c.wantResult := by
    rw [cg]
    exact ⟨rfl, rfl, rfl, rfl⟩
  obtain ⟨sv, sc, sh, sw⟩ := same
  refine ⟨by simp [frames, top], fun i => ?_, ?_, ?_, r, ?_⟩
  · rw [frames, Array.getElem?_pop, getElemTake, top, Nat.add_sub_cancel]
    split
    · exact run.beneath.frames i (by assumption)
    · rfl
  · rw [contexts, sc]
    exact takeAgree run.beneath.contexts
  · rw [handlers, sh]
    exact takeAgree run.beneath.handlers
  · rw [values, sv, sw, takeAgree run.beneath.values]

end Process

namespace Machine

open Process

/-- Process `pid` of `m'` is process `pid` of `m` moved on once, if `m` has one. -/
def Moves (pid : Nat) (m m' : Machine) : Prop :=
  ∀ p, m.proc? pid = some p → ∃ q, m'.proc? pid = some q ∧ p.Moves q

def Runs (pid : Nat) : Machine → Machine → Prop := Relation.ReflTransGen (Moves pid)

/-- A move of process `pid` after which its frame `k` is still entered. -/
def MovesAbove (pid k : Nat) (m m' : Machine) : Prop :=
  Moves pid m m' ∧ ∀ q, m'.proc? pid = some q → k < q.frames.size

variable {m m' : Machine} {pid : Nat}

theorem Moves.ofProcs (same : m'.procs = m.procs) : Moves pid m m' :=
  fun p found => ⟨p, by rw [procOfProcs same, found], .self p⟩

theorem Moves.setFound {p q : Process} (found : m.proc? pid = some p) (same : q.id = p.id)
    (move : p.Moves q) : Moves pid m (m.setProc q) := by
  intro p' found'
  rw [found, Option.some.injEq] at found'
  subst found'
  exact ⟨q, procSetFound found (same.trans (procIdOf found)), move⟩

theorem Moves.change (h : Change pid m m') : Moves pid m m' := by
  cases h with
  | proc found step => exact Moves.setFound found step.id (.step step)
  | view v i x =>
    rcases setViewLocalEq m v i x with same | ⟨p, k, f, found, hf, eq⟩
    · rw [same]
      exact Moves.ofProcs rfl
    · rw [eq]
      by_cases hv : pid = v.process
      · subst hv
        exact Moves.setFound found rfl (.locals k f _ hf)
      · -- a view of another process's frame
        have hid := procIdOf found
        intro p' found'
        refine ⟨p', ?_, .self p'⟩
        rw [procSetProc, if_neg, found']
        exact fun h => hv (h.trans hid)
  | outside same => exact Moves.ofProcs same

theorem Runs.evolves (h : Evolves pid m m') : Runs pid m m' := by
  induction h with
  | refl => exact .refl
  | tail _ step ih => exact Relation.ReflTransGen.tail ih (Moves.change step)

theorem Runs.step (m : Machine) (pid : Nat) : Runs pid m (m.step pid).1 :=
  .evolves (stepEvolves m pid)

theorem finishFound {p : Process} (found : m.proc? pid = some p) (status : Status) :
    (m.finish pid status).proc? pid = some { p with
      finishedObject := m.invokingObject p, frames := #[], contexts := #[], handlers := #[],
      values := #[], contextTos := 0, status := status } := by
  have hid := procIdOf found
  unfold Machine.finish
  rw [found]
  exact procSetFound found hid

theorem failWithFound {p : Process} (found : m.proc? pid = some p) (message : String) :
    ∃ obj, (m.failWith pid message).proc? pid = some { p with
      failure := some ⟨message, m.trace p⟩, finishedObject := obj, frames := #[],
      contexts := #[], handlers := #[], values := #[], contextTos := 0, status := .failed } := by
  have hid := procIdOf found
  unfold Machine.failWith
  rw [found]
  dsimp only
  exact ⟨_, finishFound (procSetFound found
    (show ({ p with failure := some ⟨message, m.trace p⟩ } : Process).id = pid from hid)) .failed⟩

theorem Moves.finish (status : Status) : Moves pid m (m.finish pid status) := by
  intro p found
  exact ⟨_, finishFound found status, .halt rfl⟩

theorem Moves.leaveFrame (value : Option Value) : Moves pid m (m.leaveFrame pid value) := by
  unfold Machine.leaveFrame
  split
  · rename_i p found
    split
    · rename_i r left
      exact Moves.setFound found (returnFromFrameId left) (.leave value left)
    · exact Moves.ofProcs rfl
  · exact Moves.ofProcs rfl

theorem Moves.raise (fault : Fault) : Moves pid m (m.raise pid fault).1 := by
  unfold Machine.raise
  split
  · exact Moves.ofProcs rfl
  · rename_i p found
    have same := unwindId p fault
    split
    · rename_i r caught
      rw [caught] at same
      exact Moves.setFound found same (.unwind fault caught)
    · rename_i r uncaught
      rw [uncaught] at same
      intro p' found'
      rw [found, Option.some.injEq] at found'
      subst found'
      obtain ⟨obj, failed⟩ := failWithFound (procSetFound found (same.trans (procIdOf found)))
        fault.message
      exact ⟨_, failed, .halt rfl⟩

theorem Moves.setStatus (status : Status) :
    Moves pid m (m.modifyProc pid fun p => { p with status := status }) := by
  intro p found
  refine ⟨{ p with status := status }, ?_, .relabel rfl rfl rfl rfl rfl rfl⟩
  rw [procModifyProc m pid pid (fun p => { p with status := status }) (fun _ h => h), if_pos rfl,
    found]
  rfl

theorem Runs.stepTo {r : Except Fault Outcome} (stepped : m.step pid = (m', r)) :
    Runs pid m m' := by
  have := Runs.step m pid
  rwa [stepped] at this

theorem Runs.raiseTo {fault : Fault} {caught : Bool} (raised : m.raise pid fault = (m', caught)) :
    Runs pid m m' := by
  have : Runs pid m (m.raise pid fault).1 := .single (Moves.raise fault)
  rwa [raised] at this

theorem Runs.settle (m : Machine) : Runs pid m m.settle := .single (Moves.ofProcs (settleProcs m))

theorem Runs.keptByRun (m : Machine) (pid : Nat) : KeptByRun (Runs pid m) pid where
  observed m' _ h := h.tail (Moves.ofProcs (observeProcs m' pid))
  stepped h step := h.trans (Runs.stepTo step)
  settled _ h := h.trans (Runs.settle _)
  left _ value h := h.tail (Moves.leaveFrame value)
  raised h raised := h.trans (Runs.raiseTo raised)
  finished _ status h := h.tail (Moves.finish status)
  paused _ status h := h.tail (Moves.setStatus status)
  exhausted _ h := h.tail (Moves.ofProcs rfl)

theorem Runs.runLoop (temporary : Bool) (fuel : Nat) (m : Machine) :
    Runs pid m (runLoop pid temporary fuel m) :=
  (Runs.keptByRun m pid).runLoop temporary fuel m .refl

theorem Runs.execute (m : Machine) (pid : Nat) (temporary : Bool) :
    Runs pid m (m.execute pid temporary) :=
  -- starting the process relabels it and keeps its stacks
  (Runs.keptByRun m pid).execute temporary
    (fun _ found _ => .single (Moves.setFound found rfl (.relabel rfl rfl rfl rfl rfl rfl))) .refl

theorem runningAlong {p q₁ : Process} {c : Frame} {m₁ m₂ : Machine}
    (chain : Relation.ReflTransGen (MovesAbove pid c.index) m₁ m₂)
    (found : m₁.proc? pid = some q₁) (run : Running p c q₁) :
    ∃ q₂, m₂.proc? pid = some q₂ ∧ Running p c q₂ := by
  induction chain with
  | refl => exact ⟨q₁, found, run⟩
  | tail _ move ih =>
    obtain ⟨q, hq, run'⟩ := ih
    obtain ⟨q', hq', moved⟩ := move.1 q hq
    exact ⟨q', hq', run'.moves moved (move.2 q' hq')⟩

end Machine

end ScriptEngine
