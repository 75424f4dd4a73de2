import ScriptEngine.Proofs.StepEffects
/-!
The shape of a process. Every frame records how deep the value, context and handler stacks
were when it was entered; these depths grow from the bottom frame to the top one and the top
frame's stay within the stacks. Every handler belongs to the frame that installed it: it
lies in that frame's part of the handler stack and above that frame's value and context
depths. This shape holds of a fresh process and is kept by entering and leaving frames,
installing handlers, a pending fault and any number of runs of any code, so a fault always
goes to the innermost handler, which resumes in the frame that installed it.
-/
namespace ScriptEngine

/-- The depths a frame records on entry, with its position. -/
def Frame.depths (f : Frame) : Nat × Nat × Nat × Nat :=
  (f.index, f.valueSp, f.contextSp, f.handlerSp)

theorem Frame.Retains.depths {f g : Frame} (h : f.Retains g) : g.depths = f.depths := by
  rw [h]
  rfl

namespace Process

/-- The shape a process keeps. -/
structure WellFormed (p : Process) : Prop where
  /-- The frame stack stays within its limit. -/
  bounded : p.frames.size ≤ p.limits.maxFrames
  /-- Each frame knows its position. -/
  indexed : ∀ (i : Nat) (f : Frame), p.frames[i]? = some f → f.index = i
  /-- Entry depths grow from the bottom frame to the top one. -/
  nested : ∀ (i j : Nat) (f g : Frame), i ≤ j → p.frames[i]? = some f → p.frames[j]? = some g →
    f.valueSp ≤ g.valueSp ∧ f.contextSp ≤ g.contextSp ∧ f.handlerSp ≤ g.handlerSp
  /-- The top frame's entry depths are within the stacks. -/
  top : ∀ f : Frame, p.frames.back? = some f →
    f.valueSp ≤ p.values.size ∧ f.contextSp ≤ p.contexts.size ∧ f.handlerSp ≤ p.handlers.size
  /-- Each handler lies in the part of the handler stack of the frame that installed it,
  above that frame's value and context depths. -/
  owned : ∀ (k : Nat) (h : Handler), p.handlers[k]? = some h → ∃ f : Frame, p.frames[h.frameSp - 1]? = some f ∧
    0 < h.frameSp ∧ f.handlerSp ≤ k ∧ (∀ g : Frame, p.frames[h.frameSp]? = some g → k < g.handlerSp) ∧
    f.valueSp ≤ h.valueSp ∧ f.contextSp ≤ h.contextSp
  /-- The visible contexts are on the stack. -/
  tos : p.contextTos ≤ p.contexts.size

theorem backEq {α : Type} {xs : Array α} {x : α} (h : xs.back? = some x) :
    xs[xs.size - 1]? = some x ∧ 0 < xs.size := by
  rw [Array.back?_eq_getElem?] at h
  refine ⟨h, ?_⟩
  rcases Nat.eq_zero_or_pos xs.size with hz | hz
  · simp [hz] at h
  · exact hz

theorem getElemTake {α : Type} (xs : Array α) (n i : Nat) :
    (xs.take n)[i]? = if i < n then xs[i]? else none := by
  rw [Array.take_eq_extract, Array.getElem?_extract]
  by_cases h : i < n
  · rw [if_pos h]
    split
    · simp
    · rw [Array.getElem?_eq_none (by omega)]
  · rw [if_neg h, if_neg (by omega)]

theorem WellFormed.retreat {p q : Process} (wf : p.WellFormed) {n k : Nat}
    (depths : ∀ i : Nat, q.frames[i]?.map Frame.depths =
      if i < n then p.frames[i]?.map Frame.depths else none)
    (limits : q.limits = p.limits)
    (handlers : ∀ j : Nat, q.handlers[j]? = if j < k then p.handlers[j]? else none)
    (cut : ∀ g : Frame, p.frames[n]? = some g → k ≤ g.handlerSp)
    (top : ∀ f : Frame, q.frames.back? = some f →
      f.valueSp ≤ q.values.size ∧ f.contextSp ≤ q.contexts.size ∧ f.handlerSp ≤ q.handlers.size)
    (tos : q.contextTos ≤ q.contexts.size) : q.WellFormed := by
  -- every frame of `q` is below `n` and has a frame of `p` with its depths at its position
  have back : ∀ (i : Nat) (g : Frame), q.frames[i]? = some g →
      i < n ∧ ∃ f : Frame, p.frames[i]? = some f ∧ f.depths = g.depths := by
    intro i g hg
    have := depths i
    rw [hg] at this
    by_cases hi : i < n
    · rw [if_pos hi] at this
      cases hf : p.frames[i]? with
      | none => simp [hf] at this
      | some f => exact ⟨hi, f, rfl, by simpa [hf] using this.symm⟩
    · simp [hi] at this
  have sizes : q.frames.size ≤ p.frames.size := by
    rcases Nat.lt_or_ge p.frames.size q.frames.size with hlt | hle
    · obtain ⟨-, f, hf, -⟩ := back p.frames.size _ (Array.getElem?_eq_getElem hlt)
      rw [Array.getElem?_eq_none (Nat.le_refl _)] at hf
      cases hf
    · exact hle
  refine ⟨limits ▸ Nat.le_trans sizes wf.bounded, ?_, ?_, top, ?_, tos⟩
  · intro i g hg
    obtain ⟨-, f, hf, same⟩ := back i g hg
    have := wf.indexed i f hf
    simp only [Frame.depths, Prod.mk.injEq] at same
    omega
  · intro i j f g hij hf hg
    obtain ⟨-, f', hf', same⟩ := back i f hf
    obtain ⟨-, g', hg', same'⟩ := back j g hg
    have := wf.nested i j f' g' hij hf' hg'
    simp only [Frame.depths, Prod.mk.injEq] at same same'
    omega
  · intro j h hh
    rw [handlers] at hh
    split at hh
    case isFalse => cases hh
    rename_i below
    obtain ⟨f, hf, pos, low, above, hv, hc⟩ := wf.owned j h hh
    -- the handler's frame survives the cut: a frame at or above `n` owns no handler below `k`
    have kept : h.frameSp - 1 < n := by
      rcases Nat.lt_or_ge (h.frameSp - 1) n with hlt | hge
      · exact hlt
      · have hn : n < p.frames.size := Nat.lt_of_le_of_lt hge
          (Array.getElem?_eq_some_iff.mp hf).1
        have := cut _ (Array.getElem?_eq_getElem hn)
        have := (wf.nested n _ _ f hge (Array.getElem?_eq_getElem hn) hf).2.2
        omega
    have := depths (h.frameSp - 1)
    rw [if_pos kept, hf] at this
    cases hg : q.frames[h.frameSp - 1]? with
    | none => simp [hg] at this
    | some g =>
      simp only [hg, Option.map_some, Option.some.injEq, Frame.depths, Prod.mk.injEq] at this
      refine ⟨g, rfl, pos, by omega, fun g' hg' => ?_, by omega, by omega⟩
      obtain ⟨-, f'', hf'', same''⟩ := back _ g' hg'
      have := above f'' hf''
      simp only [Frame.depths, Prod.mk.injEq] at same''
      omega

theorem WellFormed.reframe {p q : Process} (wf : p.WellFormed)
    (depths : ∀ i : Nat, q.frames[i]?.map Frame.depths = p.frames[i]?.map Frame.depths)
    (limits : q.limits = p.limits) (handlers : q.handlers = p.handlers)
    (top : ∀ f : Frame, q.frames.back? = some f →
      f.valueSp ≤ q.values.size ∧ f.contextSp ≤ q.contexts.size ∧ f.handlerSp ≤ q.handlers.size)
    (tos : q.contextTos ≤ q.contexts.size) : q.WellFormed := by
  refine @WellFormed.retreat p q wf p.frames.size p.handlers.size (fun i => ?_) limits
    (fun j => ?_) (fun g hg => ?_) top tos
  · rw [depths]
    split
    · rfl
    · rw [Array.getElem?_eq_none (by omega)]
      rfl
  · rw [handlers]
    split
    · rfl
    · rw [Array.getElem?_eq_none (by omega)]
  · rw [Array.getElem?_eq_none (Nat.le_refl _)] at hg
    cases hg

theorem WellFormed.below {p : Process} (wf : p.WellFormed) {i : Nat} {f : Frame}
    (hf : p.frames[i]? = some f) :
    f.valueSp ≤ p.values.size ∧ f.contextSp ≤ p.contexts.size ∧ f.handlerSp ≤ p.handlers.size := by
  have hi : i < p.frames.size := by
    rcases Nat.lt_or_ge i p.frames.size with h | h
    · exact h
    · rw [Array.getElem?_eq_none h] at hf; cases hf
  obtain ⟨t, ht⟩ : ∃ t, p.frames.back? = some t := ⟨_, Array.back?_eq_getElem?.trans
    (Array.getElem?_eq_getElem (by omega))⟩
  have := wf.nested i (p.frames.size - 1) f t (by omega) hf (backEq ht).1
  have := wf.top t ht
  omega

theorem valueFloorTop {p : Process} {f : Frame} (top : p.frames.back? = some f) :
    p.valueFloor = f.valueSp := by
  simp [valueFloor, top]

@[simp] theorem modifyTopValues (p : Process) (g : Frame → Frame) :
    (p.modifyTop g).values = p.values := by
  unfold modifyTop; split <;> rfl

@[simp] theorem modifyTopContexts (p : Process) (g : Frame → Frame) :
    (p.modifyTop g).contexts = p.contexts := by
  unfold modifyTop; split <;> rfl

@[simp] theorem modifyTopHandlers (p : Process) (g : Frame → Frame) :
    (p.modifyTop g).handlers = p.handlers := by
  unfold modifyTop; split <;> rfl

@[simp] theorem modifyTopContextTos (p : Process) (g : Frame → Frame) :
    (p.modifyTop g).contextTos = p.contextTos := by
  unfold modifyTop; split <;> rfl

@[simp] theorem modifyTopLimits (p : Process) (g : Frame → Frame) :
    (p.modifyTop g).limits = p.limits := by
  unfold modifyTop; split <;> rfl

theorem modifyTopAt (p : Process) (g : Frame → Frame) (i : Nat) :
    (p.modifyTop g).frames[i]? = if i + 1 = p.frames.size then p.frames[i]?.map g
      else p.frames[i]? := by
  unfold modifyTop
  split
  · rename_i t top
    obtain ⟨ht, pos⟩ := backEq top
    rw [Array.getElem?_push, Array.getElem?_pop, Array.size_pop]
    by_cases hi : i + 1 = p.frames.size
    · rw [if_pos (by omega), if_pos hi, show i = p.frames.size - 1 by omega, ht]
      rfl
    · rw [if_neg (by omega), if_neg hi]
      by_cases lt : i < p.frames.size - 1
      · rw [if_pos lt]
      · rw [if_neg lt, Array.getElem?_eq_none (by omega)]
  · rename_i none_
    have : p.frames.size = 0 := by
      rcases Nat.eq_zero_or_pos p.frames.size with h | h
      · exact h
      · rw [Array.back?_eq_getElem?, Array.getElem?_eq_getElem (by omega)] at none_
        cases none_
    simp [this]

theorem modifyTopDepths (p : Process) {g : Frame → Frame} (keeps : ∀ f : Frame, f.Retains (g f))
    (i : Nat) : (p.modifyTop g).frames[i]?.map Frame.depths = p.frames[i]?.map Frame.depths := by
  rw [modifyTopAt]
  split
  · cases p.frames[i]? with
    | none => rfl
    | some f => simp [(keeps f).depths]
  · rfl

theorem modifyTopBack (p : Process) (g : Frame → Frame) :
    (p.modifyTop g).frames.back? = p.frames.back?.map g := by
  unfold modifyTop
  split <;> simp_all

theorem topOfRetains {p : Process} {g : Frame → Frame} (keeps : ∀ f : Frame, f.Retains (g f))
    {f : Frame} (top : (p.modifyTop g).frames.back? = some f) :
    ∃ f', p.frames.back? = some f' ∧ f.depths = f'.depths := by
  rw [modifyTopBack] at top
  cases hb : p.frames.back? with
  | none => simp [hb] at top
  | some f' =>
    simp only [hb, Option.map_some, Option.some.injEq] at top
    exact ⟨f', rfl, top ▸ (keeps f').depths⟩

theorem WellFormed.retop {p : Process} (wf : p.WellFormed) {g : Frame → Frame}
    (keeps : ∀ f : Frame, f.Retains (g f)) : (p.modifyTop g).WellFormed := by
  refine wf.reframe (modifyTopDepths p keeps) (modifyTopLimits p g) (modifyTopHandlers p g)
    (fun f top => ?_) ?_
  · obtain ⟨f', top', same⟩ := topOfRetains keeps top
    have := wf.top f' top'
    simp only [Frame.depths, Prod.mk.injEq] at same
    simp only [modifyTopValues, modifyTopContexts, modifyTopHandlers]
    omega
  · simpa using wf.tos

theorem backSome {α : Type} {xs : Array α} (h : xs ≠ #[]) : ∃ x, xs.back? = some x := by
  cases hb : xs.back? with
  | none => exact absurd (Array.back?_eq_none_iff.mp hb) h
  | some x => exact ⟨x, rfl⟩

theorem WellFormed.floor {p : Process} (wf : p.WellFormed) : p.valueFloor ≤ p.values.size := by
  cases hb : p.frames.back? with
  | none => simp [valueFloor, hb]
  | some f => rw [valueFloorTop hb]; exact (wf.top f hb).1

/-! What each change of `Process.Step` does to the shape. -/

theorem WellFormed.withValues {p : Process} (wf : p.WellFormed) (vs : Array Value)
    (above : p.valueFloor ≤ vs.size) : { p with values := vs }.WellFormed :=
  { wf with
    top := fun f top => by
      have top' : p.frames.back? = some f := top
      rw [valueFloorTop top'] at above
      exact ⟨above, (wf.top f top').2⟩ }

theorem WellFormed.withContexts {p : Process} (wf : p.WellFormed) (cs : Array ContextId) (t : Nat)
    (above : ∀ f : Frame, p.frames.back? = some f → f.contextSp ≤ cs.size) (tos : t ≤ cs.size) :
    { p with contexts := cs, contextTos := t }.WellFormed :=
  { wf with
    top := fun f top => ⟨(wf.top f top).1, above f top, (wf.top f top).2.2⟩
    tos := tos }

theorem WellFormed.markContextTos {p : Process} (wf : p.WellFormed) :
    p.markContextTos.1.WellFormed := by
  have keeps : ∀ f : Frame, f.Retains { f with contextTos := p.contexts.size } := fun _ => rfl
  have wf' := wf.retop keeps
  exact wf'.withContexts _ p.contexts.size (fun f top => (wf'.top f top).2.1)
    (Nat.le_of_eq (by rw [modifyTopContexts]))

theorem WellFormed.pushFrame {p q : Process} {code : CodeId} {n serial : Nat} {w : Bool}
    (wf : p.WellFormed) (pushed : p.pushFrame code n serial w = .ok q) : q.WellFormed := by
  obtain ⟨room, rfl⟩ := pushFrameOk pushed
  -- the new frame sits at position `p.frames.size`, at the stacks' current depths
  refine ⟨?_, ?_, ?_, ?_, ?_, ?_⟩
  · simp only [Array.size_push]
    omega
  · intro i f hf
    rw [Array.getElem?_push] at hf
    split at hf
    · rename_i hi
      cases hf
      exact hi.symm
    · exact wf.indexed i f hf
  · intro i j f g hij hf hg
    rw [Array.getElem?_push] at hf hg
    split at hg
    · cases hg
      split at hf
      · cases hf
        simp
      · exact wf.below hf
    · split at hf
      · have := (Array.getElem?_eq_some_iff.mp hg).1
        omega
      · exact wf.nested i j f g hij hf hg
  · intro f hf
    simp only [Array.back?_push, Option.some.injEq] at hf
    subst hf
    simp
  · intro k h hh
    obtain ⟨f, hf, pos, low, above, hv, hc⟩ := wf.owned k h hh
    have lt := (Array.getElem?_eq_some_iff.mp hf).1
    refine ⟨f, by rw [Array.getElem?_push, if_neg (by omega)]; exact hf, pos, low,
      fun g hg => ?_, hv, hc⟩
    rw [Array.getElem?_push] at hg
    split at hg
    · cases hg
      exact (Array.getElem?_eq_some_iff.mp hh).1
    · exact above g hg
  · exact Nat.le_refl _

theorem WellFormed.pushHandler {p : Process} (wf : p.WellFormed) (pc : Nat)
    (framed : p.frames ≠ #[]) : (p.pushHandler pc).WellFormed := by
  obtain ⟨t, ht⟩ := backSome framed
  refine { wf with top := fun f hf => ?_, owned := fun k h hh => ?_ }
  · have := wf.top f hf
    simp only [Process.pushHandler, Array.size_push]
    omega
  · simp only [Process.pushHandler, Array.getElem?_push] at hh
    split at hh
    · -- the new handler belongs to the top frame and lies above all of its stacks
      cases hh
      obtain ⟨back, pos⟩ := backEq ht
      have := wf.top t ht
      refine ⟨t, back, pos, by omega, fun g hg => ?_, this.1, this.2.1⟩
      change p.frames[p.frames.size]? = some g at hg
      rw [Array.getElem?_eq_none (Nat.le_refl _)] at hg
      cases hg
    · exact wf.owned k h hh

theorem WellFormed.popHandler {p q : Process} {h : Handler} (wf : p.WellFormed)
    (popped : p.popHandler = some (q, h)) : q.WellFormed := by
  obtain ⟨above, -, rfl⟩ := popHandlerSome popped
  refine { wf with top := fun f hf => ?_, owned := fun k h' hh => ?_ }
  · have := wf.top f hf
    simp only [hf, Option.map_some, Option.getD_some] at above
    simp only [Array.size_pop]
    omega
  · rw [Array.getElem?_pop] at hh
    split at hh
    · exact wf.owned k h' hh
    · cases hh

theorem Step.wellFormed {p q : Process} (step : p.Step q) (wf : p.WellFormed) : q.WellFormed := by
  cases step with
  | push v room =>
    exact wf.withValues _ (by have := wf.floor; simp only [Array.size_push]; omega)
  | pop above => exact wf.withValues _ (by simp only [Array.size_pop]; omega)
  | drop n above =>
    exact wf.withValues _ (by simp only [Array.take_eq_extract, Array.size_extract]; omega)
  | retop g keeps => exact wf.retop keeps
  | enter c =>
    have wf' : (p.pushContext c).WellFormed := wf.withContexts _ p.contextTos
      (fun f top => by have := (wf.top f top).2.1; simp only [Array.size_push]; omega)
      (by have := wf.tos; simp only [Array.size_push]; omega)
    exact wf'.markContextTos
  | leave f top above =>
    have wf' : p.popContext.1.WellFormed := wf.withContexts _ _
      (fun f' top' => by
        rw [top, Option.some.injEq] at top'
        subst top'
        simp only [Array.size_pop]
        omega)
      (Nat.min_le_right _ _)
    exact wf'.markContextTos
  | pushFrame code n serial w pushed => exact wf.pushFrame pushed
  | pushHandler pc framed => exact wf.pushHandler pc framed
  | popHandler popped => exact wf.popHandler popped

/-! Leaving a frame. -/

theorem returnFromFrameSome {p q : Process} {value : Option Value}
    (h : p.returnFromFrame value = some q) :
    ∃ f : Frame, p.frames.back? = some f ∧ ∃ (vs : Array Value) (r : Option Value),
      q = { p with
        frames := p.frames.pop, values := vs, contexts := p.contexts.take f.contextSp,
        handlers := p.handlers.take f.handlerSp,
        contextTos := (p.frames.pop.back?.map fun g =>
          min g.contextTos (p.contexts.take f.contextSp).size).getD 0,
        result := r } ∧
      (vs = p.values.take f.valueSp ∨ ∃ v, vs = (p.values.take f.valueSp).push v) := by
  unfold returnFromFrame at h
  cases hb : p.frames.back? with
  | none => simp [hb] at h
  | some f =>
    refine ⟨f, rfl, ?_⟩
    simp only [hb, bind, Option.bind] at h
    by_cases hw : f.wantResult = true
    · by_cases he : p.frames.pop.isEmpty = true
      · simp only [hw, he, if_true, Option.some.injEq] at h
        exact ⟨_, _, h.symm, .inl rfl⟩
      · simp only [hw, he, if_true, if_false, Option.some.injEq, Bool.false_eq_true] at h
        exact ⟨_, _, h.symm, .inr ⟨_, rfl⟩⟩
    · simp only [hw, if_false, Option.some.injEq, Bool.false_eq_true] at h
      exact ⟨_, _, h.symm, .inl rfl⟩

theorem WellFormed.returnFromFrame {p q : Process} {value : Option Value} (wf : p.WellFormed)
    (h : p.returnFromFrame value = some q) : q.WellFormed := by
  obtain ⟨f, top, vs, r, rfl, hvs⟩ := returnFromFrameSome h
  obtain ⟨hf, pos⟩ := backEq top
  have fits := wf.top f top
  have values : f.valueSp ≤ vs.size := by
    rcases hvs with rfl | ⟨v, rfl⟩ <;> simp <;> omega
  refine @WellFormed.retreat p _ wf (p.frames.size - 1) f.handlerSp (fun i => ?_) rfl
    (fun j => getElemTake _ _ _) (fun g hg => ?_) (fun g hg => ?_) ?_
  · rw [Array.getElem?_pop]
    split <;> rfl
  · rw [hf] at hg
    cases hg
    exact Nat.le_refl _
  · -- the caller's depths are at most those of the frame left
    simp only [Array.back?_pop] at hg
    split at hg
    · cases hg
    · have := wf.nested (p.frames.size - 2) (p.frames.size - 1) g f (by omega) hg hf
      simp only [Array.take_eq_extract, Array.size_extract]
      omega
  · cases p.frames.pop.back?
    · exact Nat.zero_le _
    · exact Nat.min_le_right _ _

/-! Unwinding to a handler. -/

theorem unwindGoCatch {p : Process} {fault : Fault} {fuel : Nat} {h : Handler} {f : Frame}
    (back : p.handlers.back? = some h) (pos : 0 < h.frameSp)
    (hf : p.frames[h.frameSp - 1]? = some f) :
    unwind.go fault (fuel + 1) p =
      ({ p with
        frames := (p.frames.take h.frameSp).pop.push
          { f with pc := h.pc, contextTos := min f.contextTos (p.contexts.take h.contextSp).size }
        contexts := p.contexts.take h.contextSp
        contextTos := min f.contextTos (p.contexts.take h.contextSp).size
        handlers := p.handlers.pop
        values := (p.values.take h.valueSp).push (.str fault.message) }, true) := by
  have within : h.frameSp ≤ p.frames.size := by
    have := (Array.getElem?_eq_some_iff.mp hf).1
    omega
  have size : (p.frames.take h.frameSp).size = h.frameSp := by simp; omega
  have top : (p.frames.take h.frameSp).back? = some f := by
    rw [Array.back?_eq_getElem?, size, getElemTake, if_pos (by omega), hf]
  have used : (h.frameSp == 0 || h.frameSp > p.frames.size) = false := by simp; omega
  simp only [unwind.go, back, used, top]
  rfl

theorem unwindEmpty {p : Process} (fault : Fault) (empty : p.handlers = #[]) :
    p.unwind fault = (p, false) := by
  simp [unwind, empty, unwind.go]

theorem WellFormed.unwindCatch {p : Process} (wf : p.WellFormed) (fault : Fault) {h : Handler}
    (back : p.handlers.back? = some h) :
    ∃ f : Frame, p.frames[h.frameSp - 1]? = some f ∧ 0 < h.frameSp ∧
      p.unwind fault =
        ({ p with
          frames := (p.frames.take h.frameSp).pop.push
            { f with pc := h.pc, contextTos := min f.contextTos (p.contexts.take h.contextSp).size }
          contexts := p.contexts.take h.contextSp
          contextTos := min f.contextTos (p.contexts.take h.contextSp).size
          handlers := p.handlers.pop
          values := (p.values.take h.valueSp).push (.str fault.message) }, true) := by
  obtain ⟨hk, pos⟩ := backEq back
  obtain ⟨f, hf, framed, -, -, -, -⟩ := wf.owned _ h hk
  refine ⟨f, hf, framed, ?_⟩
  rw [unwind, show p.handlers.size = (p.handlers.size - 1) + 1 by omega]
  exact unwindGoCatch back framed hf

theorem WellFormed.unwind {p : Process} (wf : p.WellFormed) (fault : Fault) :
    (p.unwind fault).1.WellFormed := by
  cases hb : p.handlers.back? with
  | none => rw [unwindEmpty fault (Array.back?_eq_none_iff.mp hb)]; exact wf
  | some h =>
    obtain ⟨hk, -⟩ := backEq hb
    obtain ⟨f, hf, framed, caught⟩ := wf.unwindCatch fault hb
    obtain ⟨f', hf', -, low, above, hv, hc⟩ := wf.owned _ h hk
    rw [hf, Option.some.injEq] at hf'
    subst hf'
    rw [caught]
    have within : h.frameSp ≤ p.frames.size := by
      have := (Array.getElem?_eq_some_iff.mp hf).1
      omega
    have fits := wf.below hf
    -- the cut keeps the frames up to the handler's and the handlers below it
    refine @WellFormed.retreat p _ wf h.frameSp (p.handlers.size - 1) (fun i => ?_) rfl
      (fun j => Array.getElem?_pop) (fun g hg => Nat.le_of_lt (above g hg)) (fun g hg => ?_) ?_
    · simp only [Array.getElem?_push, Array.getElem?_pop, getElemTake, Array.size_pop]
      have size : (p.frames.take h.frameSp).size = h.frameSp := by simp; omega
      rw [size]
      by_cases hi : i = h.frameSp - 1
      · rw [if_pos hi, if_pos (by omega), hi, hf]
        rfl
      · rw [if_neg hi]
        by_cases lt : i < h.frameSp - 1
        · rw [if_pos lt, if_pos (by omega), if_pos (by omega)]
        · rw [if_neg lt, if_neg (by omega)]
          rfl
    · simp only [Array.back?_push, Option.some.injEq] at hg
      subst hg
      simp only [Array.size_push, Array.size_pop, Array.take_eq_extract, Array.size_extract]
      omega
    · exact Nat.min_le_right _ _

end Process

end ScriptEngine
