import ScriptEngine.Proofs.FrameIsolation
/-!
How a run ends. A frozen or finished process does not run: the engine is left as it was.
Otherwise the run stops, unless the engine's allowance runs out, with the process waiting,
suspended, ended, terminated or failed, and a temporary run never leaves it waiting or
suspended. A finished process has empty stacks. It fails exactly when a fault, the pending
one included, finds no handler, and then it keeps the fault's message and the trace of its
frames at that moment. Until the process ends its result and its failure are those it started
with: while it has frames no instruction, return, view write or caught fault changes them, nor
the status, nor whether the bottom frame wants a result. When the bottom frame returns, the
result is set if that frame wants one.
-/
namespace ScriptEngine

namespace Process

/-- Whether the bottom frame wants a result, if there is a bottom frame. -/
def bottomWants (p : Process) : Option Bool := p.frames[0]?.map (·.wantResult)

/-- What a process keeps while it runs with frames: `q` has frames, and `p`'s status, result,
failure and bottom frame's wish for a result. -/
structure Carries (p q : Process) : Prop where
  framed : q.frames ≠ #[]
  status : q.status = p.status
  result : q.result = p.result
  failure : q.failure = p.failure
  bottom : q.bottomWants = p.bottomWants

theorem Carries.refl {p : Process} (framed : p.frames ≠ #[]) : p.Carries p :=
  ⟨framed, rfl, rfl, rfl, rfl⟩

theorem Carries.trans {p q r : Process} (pq : p.Carries q) (qr : q.Carries r) : p.Carries r :=
  ⟨qr.framed, qr.status.trans pq.status, qr.result.trans pq.result,
    qr.failure.trans pq.failure, qr.bottom.trans pq.bottom⟩

theorem bottomModifyTop (p : Process) {g : Frame → Frame} (keeps : ∀ f : Frame, f.Retains (g f)) :
    (p.modifyTop g).bottomWants = p.bottomWants := by
  unfold bottomWants
  rw [modifyTopAt]
  split
  · cases p.frames[0]? with
    | none => rfl
    | some f =>
      simp only [Option.map_some, Option.some.injEq]
      have same := keeps f
      unfold Frame.Retains at same
      rw [same]
  · rfl

theorem carriesModifyTop {p : Process} (framed : p.frames ≠ #[]) {g : Frame → Frame}
    (keeps : ∀ f : Frame, f.Retains (g f)) : p.Carries (p.modifyTop g) := by
  have framed' : (p.modifyTop g).frames ≠ #[] := by
    rw [← Array.size_pos_iff, modifyTopFrames]
    exact Array.size_pos_iff.mpr framed
  refine ⟨framed', ?_, ?_, ?_, bottomModifyTop p keeps⟩ <;>
  · unfold modifyTop
    split <;> rfl

theorem bottomPush {p : Process} (framed : p.frames ≠ #[]) (f : Frame) :
    (p.frames.push f)[0]?.map (·.wantResult) = p.bottomWants := by
  rw [pushBelow (Array.size_pos_iff.mpr framed)]
  rfl

theorem Step.carries {p q : Process} (step : p.Step q) (framed : p.frames ≠ #[]) : p.Carries q := by
  have framed' := step.framed framed
  cases step with
  | push | pop | drop | pushHandler => exact ⟨framed', rfl, rfl, rfl, rfl⟩
  | retop g keeps => exact carriesModifyTop framed keeps
  | enter c =>
    -- marking the context depth changes the top frame's depth mark only
    have keeps : ∀ f : Frame, f.Retains { f with contextTos := (p.pushContext c).contexts.size } :=
      fun _ => rfl
    have marked := carriesModifyTop (show (p.pushContext c).frames ≠ #[] from framed) keeps
    exact ⟨marked.framed, marked.status, marked.result, marked.failure, marked.bottom⟩
  | leave f top above =>
    have keeps : ∀ f : Frame, f.Retains { f with contextTos := p.popContext.1.contexts.size } :=
      fun _ => rfl
    have marked := carriesModifyTop (show p.popContext.1.frames ≠ #[] from framed) keeps
    exact ⟨marked.framed, marked.status, marked.result, marked.failure, marked.bottom⟩
  | pushFrame code n serial w pushed =>
    rw [(pushFrameOk pushed).2] at framed' ⊢
    exact ⟨framed', rfl, rfl, rfl, bottomPush framed _⟩
  | popHandler popped =>
    rw [(popHandlerSome popped).2.2] at framed' ⊢
    exact ⟨framed', rfl, rfl, rfl, rfl⟩

theorem bottomPop {p : Process} (caller : p.frames.pop ≠ #[]) :
    p.frames.pop[0]?.map (·.wantResult) = p.bottomWants := by
  have pos := Array.size_pos_iff.mpr caller
  rw [Array.size_pop] at pos
  rw [Array.getElem?_pop, if_pos pos]
  rfl

theorem returnCarries {p q : Process} {v : Option Value} (left : p.returnFromFrame v = some q)
    (caller : q.frames ≠ #[]) : p.Carries q := by
  unfold returnFromFrame at left
  cases hb : p.frames.back? with
  | none => simp [hb] at left
  | some f =>
    simp only [hb, bind, Option.bind] at left
    have popped : p.frames.pop.isEmpty = false := by
      by_cases hw : f.wantResult = true
      · by_cases he : p.frames.pop.isEmpty = true
        · simp only [hw, he, if_true, Option.some.injEq] at left
          rw [← left] at caller
          exact absurd (Array.isEmpty_iff.mp he) caller
        · simpa using he
      · simp only [hw, if_false, Option.some.injEq, Bool.false_eq_true] at left
        rw [← left] at caller
        simpa using caller
    have below := bottomPop (Array.isEmpty_eq_false_iff.mp popped)
    simp only [popped, Bool.false_eq_true, if_false] at left
    split at left <;> (simp only [Option.some.injEq] at left; subst left; exact ⟨caller, rfl, rfl, rfl, below⟩)

theorem returnBottom {p q : Process} {v : Option Value} (left : p.returnFromFrame v = some q)
    (ended : q.frames = #[]) :
    q.status = p.status ∧ q.failure = p.failure ∧
      (q.result.isSome ↔ p.result.isSome ∨ p.bottomWants = some true) := by
  unfold returnFromFrame at left
  cases hb : p.frames.back? with
  | none => simp [hb] at left
  | some f =>
    simp only [hb, bind, Option.bind] at left
    have single : p.frames.pop = #[] := by
      by_cases hw : f.wantResult = true
      · by_cases he : p.frames.pop.isEmpty = true
        · exact Array.isEmpty_iff.mp he
        · simp only [hw, he, if_true, if_false, Bool.false_eq_true, Option.some.injEq] at left
          rw [← left] at ended
          exact absurd (Array.isEmpty_iff.mpr ended) he
      · simp only [hw, if_false, Option.some.injEq, Bool.false_eq_true] at left
        rw [← left] at ended
        exact ended
    have bottom : p.bottomWants = some f.wantResult := by
      obtain ⟨last, pos⟩ := backEq hb
      have one : p.frames.size = 1 := by
        have := congrArg Array.size single
        rw [Array.size_pop] at this
        simp only [List.size_toArray, List.length_nil] at this
        omega
      unfold bottomWants
      rw [one] at last
      rw [last]
      rfl
    rw [bottom]
    have empty : p.frames.pop.isEmpty = true := by rw [single]; rfl
    by_cases hw : f.wantResult = true
    · simp only [hw, empty, if_true, Option.some.injEq] at left
      subst left
      simp [hw]
    · simp only [hw, if_false, Option.some.injEq, Bool.false_eq_true] at left
      subst left
      simp [hw]

theorem bottomPopPush {xs : Array Frame} {f : Frame} (top : xs.back? = some f) (g : Frame)
    (same : g.wantResult = f.wantResult) :
    (xs.pop.push g)[0]?.map (·.wantResult) = xs[0]?.map (·.wantResult) := by
  obtain ⟨last, pos⟩ := backEq top
  by_cases single : xs.size = 1
  · have popped : xs.pop.size = 0 := by rw [Array.size_pop]; omega
    rw [single] at last
    rw [Array.getElem?_push, if_pos popped.symm, last]
    exact congrArg some same
  · rw [pushBelow (by rw [Array.size_pop]; omega), Array.getElem?_pop,
      if_pos (by omega)]

theorem unwindGoCarries (fault : Fault) : ∀ (fuel : Nat) (p q : Process),
    p.frames ≠ #[] → unwind.go fault fuel p = (q, true) → p.Carries q
  | 0, _, _, _, caught => by cases caught
  | fuel + 1, p, q, framed, caught => by
    unfold unwind.go at caught
    split at caught
    · cases caught
    · rename_i h _
      dsimp only at caught
      split at caught
      · -- a handler of a frame that is gone is dropped, and the search goes on
        have rest := unwindGoCarries fault fuel _ q ?_ caught
        · exact ⟨rest.framed, rest.status, rest.result, rest.failure, rest.bottom⟩
        · exact framed
      · rename_i live
        simp only [Bool.or_eq_true, beq_iff_eq, decide_eq_true_eq, not_or] at live
        obtain ⟨reached, within⟩ := live
        have cut : (p.frames.take h.frameSp).size = h.frameSp := by
          simp
          omega
        obtain ⟨f, top⟩ := @backSome _ (p.frames.take h.frameSp) (by
          rintro empty
          rw [empty] at cut
          simp at cut
          omega)
        simp only [top, Prod.mk.injEq, and_true] at caught
        subst caught
        -- the handler's frame becomes the top frame; the bottom frame stays
        refine ⟨by simp, rfl, rfl, rfl, ?_⟩
        unfold bottomWants
        dsimp only
        rw [bottomPopPush top, getElemTake, if_pos (by omega)]
        rfl

theorem unwindGoUncaught (fault : Fault) : ∀ (fuel : Nat) (p q : Process),
    unwind.go fault fuel p = (q, false) → q.frames = p.frames ∧ q.status = p.status ∧
      q.result = p.result ∧ q.failure = p.failure
  | 0, _, _, uncaught => by
    cases uncaught
    exact ⟨rfl, rfl, rfl, rfl⟩
  | fuel + 1, p, q, uncaught => by
    unfold unwind.go at uncaught
    split at uncaught
    · cases uncaught
      exact ⟨rfl, rfl, rfl, rfl⟩
    · dsimp only at uncaught
      split at uncaught
      · have rest := unwindGoUncaught fault fuel _ q uncaught
        exact rest
      · split at uncaught <;> cases uncaught

theorem unwindGoFramed (fault : Fault) : ∀ (fuel : Nat) (p q : Process),
    unwind.go fault fuel p = (q, true) → p.frames ≠ #[]
  | 0, _, _, caught => by cases caught
  | fuel + 1, p, q, caught => by
    unfold unwind.go at caught
    split at caught
    · cases caught
    · rename_i h _
      dsimp only at caught
      split at caught
      · -- the handler of a frame that is gone is dropped; the frames stay
        have rest := unwindGoFramed fault fuel _ q caught
        exact rest
      · rename_i live
        simp only [Bool.or_eq_true, beq_iff_eq, decide_eq_true_eq, not_or] at live
        intro empty
        rw [empty] at live
        simp only [List.size_toArray, List.length_nil, Nat.not_lt, Nat.le_zero] at live
        exact live.1 live.2

theorem carriesSetLocals {p : Process} (framed : p.frames ≠ #[]) {k : Nat} {f : Frame}
    (at_ : p.frames[k]? = some f) (ls : Array Value) :
    p.Carries { p with frames := p.frames.set! k { f with locals := ls } } := by
  refine ⟨?_, rfl, rfl, rfl, ?_⟩
  · rw [← Array.size_pos_iff, Array.set!_eq_setIfInBounds, Array.size_setIfInBounds]
    exact Array.size_pos_iff.mpr framed
  · unfold bottomWants
    dsimp only
    rw [Array.set!_eq_setIfInBounds, Array.getElem?_setIfInBounds]
    by_cases bottom : k = 0
    · subst bottom
      rw [if_pos rfl, if_pos (Array.getElem?_eq_some_iff.mp at_).1, at_]
      rfl
    · rw [if_neg bottom]

/-- Process `r` is `p` under way in a run: it is running, has `p`'s failure and, while it
has frames, `p`'s result and bottom frame; once it has none, its result was set if the bottom
frame wanted one. -/
structure Underway (p r : Process) : Prop where
  running : r.status = .running
  failure : r.failure = p.failure
  framed : r.frames ≠ #[] → r.result = p.result ∧ r.bottomWants = p.bottomWants
  emptied : r.frames = #[] → (r.result.isSome ↔ p.result.isSome ∨ p.bottomWants = some true)

theorem underwayStart {p r : Process} (running : r.status = .running) (frames : r.frames = p.frames)
    (result : r.result = p.result) (failure : r.failure = p.failure) : p.Underway r where
  running := running
  failure := failure
  framed _ := ⟨result, by unfold bottomWants; rw [frames]⟩
  emptied empty := by
    have none : p.bottomWants = none := by
      unfold bottomWants
      rw [← frames, empty]
      rfl
    rw [result, none]
    simp

theorem Underway.carry {p r r' : Process} (u : p.Underway r) (framed : r.frames ≠ #[])
    (carried : r.Carries r') : p.Underway r' where
  running := carried.status.trans u.running
  failure := carried.failure.trans u.failure
  framed _ := ⟨carried.result.trans (u.framed framed).1, carried.bottom.trans (u.framed framed).2⟩
  emptied empty := absurd empty carried.framed

theorem Underway.leave {p r r' : Process} {v : Option Value} (u : p.Underway r)
    (framed : r.frames ≠ #[]) (left : r.returnFromFrame v = some r') : p.Underway r' := by
  by_cases caller : r'.frames = #[]
  · obtain ⟨status, failure, result⟩ := returnBottom left caller
    obtain ⟨sameResult, sameBottom⟩ := u.framed framed
    refine ⟨status.trans u.running, failure.trans u.failure, fun h => absurd caller h, fun _ => ?_⟩
    rw [result, sameResult, sameBottom]
  · exact u.carry framed (returnCarries left caller)

end Process

namespace Machine

open Process

variable {pid : Nat} {M M' : Machine} {r : Process}

theorem Change.carries (h : Change pid M M') (found : M.proc? pid = some r)
    (framed : r.frames ≠ #[]) : ∃ r', M'.proc? pid = some r' ∧ r.Carries r' := by
  cases h with
  | proc found' step =>
    rw [found, Option.some.injEq] at found'
    subst found'
    exact ⟨_, procSetFound found (step.id.trans (procIdOf found)), step.carries framed⟩
  | view v i x =>
    rcases setViewLocalEq M v i x with same | ⟨p, k, f, viewed, at_, written⟩
    · rw [same]
      exact ⟨r, found, .refl framed⟩
    · rw [written]
      by_cases own : v.process = pid
      · -- the view is of a frame of process `pid` itself
        rw [own, found, Option.some.injEq] at viewed
        subst viewed
        have hid := procIdOf found
        exact ⟨_, procSetFound found hid, carriesSetLocals framed at_ _⟩
      · have other : pid ≠ ({ p with frames := (p.frames.set! k
            { f with locals := f.locals.set! i x }) } : Process).id := by
          show pid ≠ p.id
          rw [procIdOf viewed]
          exact Ne.symm own
        exact ⟨r, (procSetProcOther _ _ other).trans found, .refl framed⟩
  | outside same => exact ⟨r, (procOfProcs same pid).trans found, .refl framed⟩

theorem Evolves.carries (h : Evolves pid M M') (found : M.proc? pid = some r)
    (framed : r.frames ≠ #[]) : ∃ r', M'.proc? pid = some r' ∧ r.Carries r' := by
  induction h with
  | refl => exact ⟨r, found, .refl framed⟩
  | tail _ change ih =>
    obtain ⟨r₁, found₁, carried⟩ := ih
    obtain ⟨r₂, found₂, carried'⟩ := change.carries found₁ carried.framed
    exact ⟨r₂, found₂, carried.trans carried'⟩

/-- How a run of process `pid` from `m`, where it was `p`, stops at `m'`, where it is `q`. -/
structure Stops (pid : Nat) (temporary : Bool) (m : Machine) (p : Process) (m' : Machine)
    (q : Process) : Prop where
  /-- The process waits, is suspended or is finished; it is neither runnable nor running. -/
  halted : q.status = .waiting ∨ q.status = .suspended ∨ q.status.isTerminal
  /-- A temporary run does not leave the process waiting or suspended. -/
  stays : temporary = true → q.status.isTerminal
  cleared : q.status.isTerminal →
    q.frames = #[] ∧ q.contexts = #[] ∧ q.handlers = #[] ∧ q.values = #[] ∧ q.contextTos = 0
  /-- The process failed exactly when the run ended on a fault that found no handler. -/
  failed : q.status = .failed ↔
    ∃ (fault : Fault) (M : Machine), Runs pid m M ∧ (M.raise pid fault).2 = false ∧
      (M.raise pid fault).1.settle = m'
  /-- A failed process keeps the fault's message and the trace of its frames as they were. -/
  failure : q.status = .failed → ∃ (fault : Fault) (M : Machine) (r : Process), Runs pid m M ∧
    M.proc? pid = some r ∧ (r.unwind fault).2 = false ∧
    q.failure = some ⟨fault.message, M.trace r⟩
  kept : q.status ≠ .failed → q.failure = p.failure
  result : q.status ≠ .ended → q.result = p.result
  /-- An ended process has a result if it had one or its bottom frame wanted one. -/
  ended : q.status = .ended → (q.result.isSome ↔ p.result.isSome ∨ p.bottomWants = some true)

theorem raiseFails {M m' : Machine} {fault : Fault} {q : Process}
    (uncaught : (M.raise pid fault).2 = false) (ends : (M.raise pid fault).1.settle = m')
    (found : m'.proc? pid = some q) : q.status = .failed := by
  subst ends
  rw [procOfProcs (settleProcs _)] at found
  unfold Machine.raise at uncaught found
  cases present : M.proc? pid with
  | none => simp [present] at found
  | some r =>
    rcases unwound : r.unwind fault with ⟨r', _ | _⟩
    · simp only [present, unwound] at found
      have same : r'.id = pid := by
        have := unwindId r fault
        rw [unwound] at this
        exact this.trans (procIdOf present)
      obtain ⟨obj, failed⟩ := failWithFound (procSetFound present same) fault.message
      rw [failed, Option.some.injEq] at found
      rw [← found]
    · simp [present, unwound] at uncaught

theorem traceSetProc (M : Machine) {r r' : Process} (frames : r'.frames = r.frames) :
    (M.setProc r').trace r' = M.trace r := by
  unfold trace
  rw [frames]
  simp only [setProcCodeOrEmpty]

variable {temporary : Bool} {m : Machine} {p : Process}

theorem finishStops {st : Status} (found : M.proc? pid = some r) (u : p.Underway r)
    (how : (st = .ended ∧ r.frames = #[]) ∨ (st = .terminated ∧ r.frames ≠ #[])) :
    ∃ q, (M.finish pid st).settle.proc? pid = some q ∧
      Stops pid temporary m p (M.finish pid st).settle q := by
  have terminal : st.isTerminal := by
    rcases how with ⟨rfl, -⟩ | ⟨rfl, -⟩ <;> rfl
  have notFailed : st ≠ .failed := by
    rcases how with ⟨rfl, -⟩ | ⟨rfl, -⟩ <;> simp
  have finished := (procOfProcs (settleProcs (M.finish pid st)) pid).trans (finishFound found st)
  refine ⟨_, finished, ⟨.inr (.inr terminal), fun _ => terminal, fun _ => ⟨rfl, rfl, rfl, rfl, rfl⟩,
    ⟨fun h => absurd h notFailed, ?_⟩, fun h => absurd h notFailed, fun _ => u.failure, ?_, ?_⟩⟩
  · rintro ⟨fault, M', -, uncaught, ends⟩
    exact absurd (raiseFails uncaught ends finished) notFailed
  · intro notEnded
    rcases how with ⟨rfl, -⟩ | ⟨-, framed⟩
    · exact absurd rfl notEnded
    · exact (u.framed framed).1
  · intro isEnded
    rcases how with ⟨-, empty⟩ | ⟨rfl, -⟩
    · exact u.emptied empty
    · cases isEnded

theorem failStops {fault : Fault} (reach : Runs pid m M) (found : M.proc? pid = some r)
    (sameResult : r.result = p.result) (raised : M.raise pid fault = (M', false)) :
    ∃ q, M'.settle.proc? pid = some q ∧ Stops pid temporary m p M'.settle q := by
  have ended := raised
  unfold Machine.raise at ended
  rw [found] at ended
  rcases unwound : r.unwind fault with ⟨r', _ | _⟩
  · simp only [unwound, Prod.mk.injEq, and_true] at ended
    subst ended
    have same : r'.id = pid := by
      have := unwindId r fault
      rw [unwound] at this
      exact this.trans (procIdOf found)
    obtain ⟨frames, -, result, -⟩ := unwindGoUncaught fault _ r r' unwound
    obtain ⟨obj, failed⟩ := failWithFound (procSetFound found same) fault.message
    refine ⟨_, (procOfProcs (settleProcs _) pid).trans failed, ⟨.inr (.inr rfl), fun _ => rfl,
      fun _ => ⟨rfl, rfl, rfl, rfl, rfl⟩, ⟨fun _ => ⟨fault, M, reach, ?_, ?_⟩, fun _ => rfl⟩,
      fun _ => ⟨fault, M, r, reach, found, by rw [unwound], ?_⟩, fun h => absurd rfl h,
      fun _ => result.trans sameResult, fun h => by cases h⟩⟩
    · rw [raised]
    · rw [raised]
    · rw [traceSetProc M frames]
  · simp [unwound] at ended

theorem suspendStops (found : M.proc? pid = some r) (u : p.Underway r) (framed : r.frames ≠ #[])
    (wait : Bool) :
    ∃ q, (M.modifyProc pid fun p => { p with
        status := if wait then .waiting else .suspended }).settle.proc? pid = some q ∧
      Stops pid false m p (M.modifyProc pid fun p => { p with
        status := if wait then .waiting else .suspended }).settle q := by
  have set := procModifyProc M pid pid (fun p => { p with
    status := if wait then Status.waiting else .suspended }) (fun _ h => h)
  rw [if_pos rfl, found] at set
  have stopped : (if wait then Status.waiting else .suspended).isTerminal = false := by
    cases wait <;> rfl
  refine ⟨_, (procOfProcs (settleProcs _) pid).trans set, ⟨?_, (fun h => by cases h),
    fun h => absurd h (by simp [stopped]), ⟨fun h => ?_, ?_⟩, fun h => ?_, fun _ => u.failure,
    fun _ => (u.framed framed).1, fun h => ?_⟩⟩
  · cases wait
    · exact .inr (.inl rfl)
    · exact .inl rfl
  · cases wait <;> cases h
  · rintro ⟨fault, M', -, uncaught, ends⟩
    exact raiseFails uncaught ends ((procOfProcs (settleProcs _) pid).trans set)
  · cases wait <;> cases h
  · cases wait <;> cases h

theorem stepCarries {fuel : Nat} {res : Except Fault Outcome} (found : M.proc? pid = some r)
    (framed : r.frames ≠ #[])
    (stepped : ({ M.observe pid with budget := fuel } : Machine).step pid = (M', res)) :
    ∃ r', M'.proc? pid = some r' ∧ r.Carries r' := by
  have ready : ({ M.observe pid with budget := fuel } : Machine).proc? pid = some r :=
    (procOfProcs (observeProcs M pid) pid).trans found
  have moved := stepEvolves ({ M.observe pid with budget := fuel } : Machine) pid
  rw [stepped] at moved
  exact moved.carries ready framed

theorem loopStep {r' : Process} {fuel : Nat} {res : Except Fault Outcome}
    (found : M.proc? pid = some r) (found' : M.proc? pid = some r')
    (framed : ¬r'.frames.isEmpty = true)
    (stepped : ({ M.observe pid with budget := fuel } : Machine).step pid = (M', res)) :
    r.frames ≠ #[] ∧ Runs pid M M' ∧ ∃ r₂, M'.proc? pid = some r₂ ∧ r.Carries r₂ := by
  rw [found, Option.some.injEq] at found'
  subst found'
  have framed' : r.frames ≠ #[] := by simpa using framed
  have ready : Runs pid M ({ M.observe pid with budget := fuel } : Machine) :=
    .single (Moves.ofProcs (observeProcs M pid))
  exact ⟨framed', ready.trans (Runs.stepTo stepped), stepCarries found framed' stepped⟩

theorem leaveFound (v : Option Value) (found : M.proc? pid = some r) (framed : r.frames ≠ #[]) :
    ∃ r', r.returnFromFrame v = some r' ∧ (M.leaveFrame pid v).proc? pid = some r' := by
  obtain ⟨f, top⟩ := backSome framed
  obtain ⟨r', left⟩ : ∃ r', r.returnFromFrame v = some r' := by
    unfold Process.returnFromFrame
    simp only [top, bind, Option.bind]
    split <;> (try split) <;> exact ⟨_, rfl⟩
  refine ⟨r', left, ?_⟩
  unfold Machine.leaveFrame
  rw [found]
  dsimp only
  rw [left]
  exact procSetFound found ((returnFromFrameId left).trans (procIdOf found))

theorem raiseCaught {fault : Fault} (found : M.proc? pid = some r)
    (raised : M.raise pid fault = (M', true)) :
    ∃ r', r.unwind fault = (r', true) ∧ M'.proc? pid = some r' := by
  unfold Machine.raise at raised
  rw [found] at raised
  rcases unwound : r.unwind fault with ⟨r', _ | _⟩
  · simp [unwound] at raised
  · simp only [unwound, Prod.mk.injEq, and_true] at raised
    subst raised
    have same : r'.id = pid := by
      have := unwindId r fault
      rw [unwound] at this
      exact this.trans (procIdOf found)
    exact ⟨r', rfl, procSetFound found same⟩

theorem runLoopStops (fuel : Nat) (M : Machine) (reach : Runs pid m M)
    (found : M.proc? pid = some r) (u : p.Underway r)
    (within : (runLoop pid temporary fuel M).exhausted = false) :
    ∃ q, (runLoop pid temporary fuel M).proc? pid = some q ∧
      Stops pid temporary m p (runLoop pid temporary fuel M) q := by
  fun_induction Machine.runLoop pid temporary fuel M generalizing r with
  | case1 _ M absent =>
    rw [absent] at found
    cases found
  | case2 _ M r' found' empty =>
    rw [found, Option.some.injEq] at found'
    subst found'
    exact finishStops found u (.inl ⟨rfl, by simpa using empty⟩)
  | case3 => cases within
  | case4 M r' found' framed fuel M₁ M₂ stepped =>
    rename_i ih
    obtain ⟨framed', ran, r₂, found₂, carried⟩ := loopStep found found' framed stepped
    exact ih (reach.trans (ran.trans (Runs.settle _)))
      ((procOfProcs (settleProcs M₂) pid).trans found₂) (u.carry framed' carried) within
  | case5 M r' found' framed fuel M₁ M₂ v stepped =>
    rename_i ih
    obtain ⟨framed', ran, r₂, found₂, carried⟩ := loopStep found found' framed stepped
    -- the frame returns, to its caller or out of the process
    obtain ⟨r₃, left, found₃⟩ := leaveFound v found₂ carried.framed
    exact ih (reach.trans (ran.trans
        (Relation.ReflTransGen.head (Moves.leaveFrame v) (Runs.settle _))))
      ((procOfProcs (settleProcs _) pid).trans found₃)
      ((u.carry framed' carried).leave carried.framed left) within
  | case6 M r' found' framed fuel M₁ M₂ _ _ M₃ raised stepped
  | case10 M r' found' framed fuel M₁ M₂ _ M₃ raised stepped =>
    -- the fault, or the suspension a temporary run turns into one, is caught
    rename_i ih
    obtain ⟨framed', ran, r₂, found₂, carried⟩ := loopStep found found' framed stepped
    obtain ⟨r₃, caught, found₃⟩ := raiseCaught found₂ raised
    exact ih (reach.trans (ran.trans ((Runs.raiseTo raised).trans (Runs.settle _))))
      ((procOfProcs (settleProcs _) pid).trans found₃)
      ((u.carry framed' carried).carry carried.framed
        (unwindGoCarries _ _ r₂ r₃ carried.framed caught)) within
  | case7 M r' found' framed fuel M₁ M₂ _ _ M₃ raised
  | case11 M r' found' framed fuel M₁ M₂ _ M₃ raised =>
    rename_i stepped
    obtain ⟨framed', ran, r₂, found₂, carried⟩ := loopStep found found' framed stepped
    exact failStops (reach.trans ran) found₂ (carried.result.trans (u.framed framed').1) raised
  | case8 M r' found' framed fuel M₁ M₂ wait temp =>
    rename_i stepped
    obtain ⟨framed', ran, r₂, found₂, carried⟩ := loopStep found found' framed stepped
    have stays : temporary = false := by simpa using temp
    subst stays
    exact suspendStops found₂ (u.carry framed' carried) carried.framed wait
  | case9 M r' found' framed fuel M₁ M₂ =>
    rename_i stepped
    obtain ⟨framed', ran, r₂, found₂, carried⟩ := loopStep found found' framed stepped
    exact finishStops found₂ (u.carry framed' carried) (.inr ⟨rfl, carried.framed⟩)

/-- How a run ends. A frozen or finished process does not run, and the engine stays as it
was. Any other process, unless the allowance runs out, stops in one of the ways of
`Stops`. -/
theorem executeStops (m : Machine) (pid : Nat) (temporary : Bool) {p : Process}
    (found : m.proc? pid = some p) :
    (p.status = .frozen ∨ p.status.isTerminal → m.execute pid temporary = m) ∧
    (¬(p.status = .frozen ∨ p.status.isTerminal) → (m.execute pid temporary).exhausted = false →
      ∃ q, (m.execute pid temporary).proc? pid = some q ∧
        Stops pid temporary m p (m.execute pid temporary) q) := by
  refine ⟨fun idle => ?_, fun active => ?_⟩
  · unfold Machine.execute
    rw [found]
    dsimp only
    rw [if_pos (by simpa using idle)]
  · -- the process is set running; its stacks, result and failure stay
    have started : ∀ {q : Process}, q.id = p.id → q.frames = p.frames → q.limits = p.limits →
        q.values = p.values → q.contexts = p.contexts → q.handlers = p.handlers →
        q.contextTos = p.contextTos → Runs pid m (m.setProc q) :=
      fun same frames limits values contexts handlers tos =>
        .single (Moves.setFound found same (.relabel frames limits values contexts handlers tos))
    have own := procIdOf found
    unfold Machine.execute
    rw [found]
    dsimp only
    rw [if_neg (by simpa using active)]
    split
    · -- a pending fault is raised first
      split
      · rename_i M raised
        intro within
        obtain ⟨r₁, caught, found₁⟩ := raiseCaught (procSetFound found (by exact own)) raised
        have framed := unwindGoFramed _ _ _ _ caught
        refine runLoopStops _ _ ?_ ((procOfProcs (settleProcs M) pid).trans found₁)
          ((underwayStart ?_ ?_ ?_ ?_).carry framed (unwindGoCarries _ _ _ _ framed caught)) within
        · refine Relation.ReflTransGen.trans ?_ ((Runs.raiseTo raised).trans (Runs.settle _))
          exact started rfl rfl rfl rfl rfl rfl rfl
        all_goals rfl
      · rename_i M raised
        intro _
        refine failStops ?_ (procSetFound found ?_) ?_ raised
        · exact started rfl rfl rfl rfl rfl rfl rfl
        · exact own
        · rfl
    · intro within
      refine runLoopStops _ _ ?_ (procSetFound found ?_) (underwayStart ?_ ?_ ?_ ?_) within
      · exact started rfl rfl rfl rfl rfl rfl rfl
      · exact own
      all_goals rfl

/-- A unit with no instructions, entered by a frame that wants a result: a temporary run of
its process stops. -/
theorem emptyUnitRunStops :
    ∃ (m : Machine) (p : Process), m.proc? 1 = some p ∧
      ¬(p.status = .frozen ∨ p.status.isTerminal) ∧ (m.execute 1 true).exhausted = false ∧
      ∃ q, (m.execute 1 true).proc? 1 = some q ∧ Stops 1 true m p (m.execute 1 true) q := by
  let unit : Code := { instrs := #[], literals := #[] }
  let m := ((Exec.pushFrame 1 ⟨0⟩ true).run (({ codes := #[unit] } : Machine).create "main").1).2
  have entered : (m.proc? 1).isSome := by decide +kernel
  obtain ⟨p, found⟩ := Option.isSome_iff_exists.mp entered
  have idle : ((m.proc? 1).map fun p => p.status == .frozen || p.status.isTerminal) =
      some false := by decide +kernel
  rw [found, Option.map_some, Option.some.injEq] at idle
  have active : ¬(p.status = .frozen ∨ p.status.isTerminal) := by simpa using idle
  have within : (m.execute 1 true).exhausted = false := by decide +kernel
  exact ⟨m, p, found, active, within, (executeStops m 1 true found).2 active within⟩

end Machine

end ScriptEngine
