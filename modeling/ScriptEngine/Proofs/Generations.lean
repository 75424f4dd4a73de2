import ScriptEngine.Proofs.SchedulerView
/-!
A process's generation says one thing only: whether a view of one of its frames still
answers, which it does while the process is at the generation the view was made at. Once
every view of process \x60pid\x60 has gone dark, moving its generation on changes nothing
else: an instruction, and every stretch of a run of the process, gives the same answer
and the same state with the generation moved on. The proof follows the instructions
through their primitives, as \x60Noninterference\x60 does for the values below a frame.
-/
namespace ScriptEngine

namespace Process

/-- The process started once more: the views made before go dark. -/
def shift (p : Process) : Process := { p with generation := p.generation + 1 }

@[simp] theorem shiftId (p : Process) : p.shift.id = p.id := rfl
@[simp] theorem shiftFrames (p : Process) : p.shift.frames = p.frames := rfl
@[simp] theorem shiftValues (p : Process) : p.shift.values = p.values := rfl
@[simp] theorem shiftContexts (p : Process) : p.shift.contexts = p.contexts := rfl
@[simp] theorem shiftHandlers (p : Process) : p.shift.handlers = p.handlers := rfl
@[simp] theorem shiftLimits (p : Process) : p.shift.limits = p.limits := rfl
@[simp] theorem shiftStatus (p : Process) : p.shift.status = p.status := rfl
@[simp] theorem shiftPending (p : Process) : p.shift.pending = p.pending := rfl
@[simp] theorem shiftGeneration (p : Process) : p.shift.generation = p.generation + 1 := rfl

theorem shiftPushValue (p : Process) (v : Value) :
    p.shift.pushValue v = (p.pushValue v).map shift := by
  unfold pushValue
  by_cases full : p.values.size ≥ p.limits.maxValues <;>
    simp only [shiftValues, shiftLimits, full, ↓reduceIte] <;> rfl

theorem shiftPopValue (p : Process) :
    p.shift.popValue = (p.popValue).map fun r => (r.1.shift, r.2) := by
  unfold popValue
  by_cases below : p.values.size ≤ p.valueFloor
  · simp only [shiftValues, show p.shift.valueFloor = p.valueFloor from rfl, below, ↓reduceIte]
    rfl
  · simp only [shiftValues, show p.shift.valueFloor = p.valueFloor from rfl, below, ↓reduceIte]
    cases p.values.back? <;> rfl

theorem shiftPeekValue (p : Process) : p.shift.peekValue = p.peekValue := rfl

theorem shiftModifyTop (p : Process) (g : Frame → Frame) :
    p.shift.modifyTop g = (p.modifyTop g).shift := by
  unfold modifyTop
  rw [shiftFrames]
  cases p.frames.back? <;> rfl

theorem shiftPushFrame (p : Process) (code : CodeId) (n serial : Nat) (w : Bool) :
    p.shift.pushFrame code n serial w = (p.pushFrame code n serial w).map shift := by
  unfold pushFrame
  by_cases full : p.frames.size ≥ p.limits.maxFrames <;>
    simp only [shiftFrames, shiftLimits, full, ↓reduceIte] <;> rfl

theorem shiftPushHandler (p : Process) (pc : Nat) :
    p.shift.pushHandler pc = (p.pushHandler pc).shift := rfl

theorem shiftPopHandler (p : Process) :
    p.shift.popHandler = p.popHandler.map fun r => (r.1.shift, r.2) := by
  unfold popHandler
  by_cases above : p.handlers.size > (p.frames.back?.map (·.handlerSp)).getD 0
  · simp only [shiftFrames, shiftHandlers, above, ↓reduceIte]
    cases p.handlers.back? <;> rfl
  · simp only [shiftFrames, shiftHandlers, above, ↓reduceIte]
    rfl

theorem shiftMarkContextTos (p : Process) :
    p.shift.markContextTos = (p.markContextTos.1.shift, p.markContextTos.2) := by
  unfold markContextTos
  simp only [shiftContexts, shiftModifyTop]
  rfl

theorem shiftReturnFromFrame (p : Process) (v : Option Value) :
    p.shift.returnFromFrame v = (p.returnFromFrame v).map shift := by
  unfold returnFromFrame
  rw [shiftFrames]
  cases p.frames.back? with
  | none => rfl
  | some f =>
    simp only [bind, Option.bind]
    split <;> (try split) <;> rfl

theorem shiftUnwindGo (fault : Fault) :
    ∀ (fuel : Nat) (p : Process),
      unwind.go fault fuel p.shift = ((unwind.go fault fuel p).1.shift, (unwind.go fault fuel p).2)
  | 0, p => rfl
  | fuel + 1, p => by
    rw [unwind.go, unwind.go, shiftHandlers]
    cases p.handlers.back? with
    | none => rfl
    | some h =>
      dsimp only
      rw [shiftFrames]
      -- both sides test the same handler against the same frames
      by_cases skips : (h.frameSp == 0 || decide (h.frameSp > p.frames.size)) = true
      · rw [if_pos skips, if_pos skips]
        exact shiftUnwindGo fault fuel { p with handlers := p.handlers.pop }
      · rw [if_neg skips, if_neg skips]
        cases (p.frames.take h.frameSp).back? <;> rfl

theorem modifyTopGeneration (p : Process) (g : Frame → Frame) :
    (p.modifyTop g).generation = p.generation := by
  unfold modifyTop
  split <;> rfl

theorem Step.generation {p q : Process} (h : p.Step q) : q.generation = p.generation := by
  cases h with
  | push | pop | drop | pushHandler => rfl
  | retop g keeps => exact modifyTopGeneration p g
  | enter c => exact modifyTopGeneration _ _
  | leave f top above => exact modifyTopGeneration _ _
  | pushFrame code n serial w pushed => rw [(pushFrameOk pushed).2]
  | popHandler popped => rw [(popHandlerSome popped).2.2]

theorem shiftUnwind (p : Process) (fault : Fault) :
    p.shift.unwind fault = ((p.unwind fault).1.shift, (p.unwind fault).2) :=
  shiftUnwindGo fault _ p

theorem unwindGoGeneration (fault : Fault) : ∀ (fuel : Nat) (p : Process),
    (unwind.go fault fuel p).1.generation = p.generation
  | 0, _ => rfl
  | fuel + 1, p => by
    unfold unwind.go
    split
    · rfl
    · dsimp only
      split
      · exact unwindGoGeneration fault fuel _
      · split <;> rfl

theorem unwindGeneration (p : Process) (fault : Fault) :
    (p.unwind fault).1.generation = p.generation :=
  unwindGoGeneration fault _ p

theorem returnFromFrameGeneration {p q : Process} {value : Option Value}
    (h : p.returnFromFrame value = some q) : q.generation = p.generation := by
  obtain ⟨_, _, _, _, rfl, _⟩ := returnFromFrameSome h
  rfl

/-- What settling reads of a process: the values in its stacks, locals and result, and the
contexts it is in. -/
def refs (p : Process) : List Value × List ContextId :=
  (p.values.toList ++ (p.frames.toList.flatMap fun f => f.locals.toList) ++ p.result.toList,
    p.contexts.toList)

theorem shiftRefs (p : Process) : p.shift.refs = p.refs := rfl

end Process

namespace Machine

open Process

variable {pid : Nat} {m m' : Machine} {p : Process}

/-- The engine with process \x60pid\x60 started once more. -/
def shift (pid : Nat) (m : Machine) : Machine := m.modifyProc pid Process.shift

/-- Every view of process \x60pid\x60 was made at an earlier generation than its own. -/
def Dark (pid : Nat) (m : Machine) : Prop :=
  ∀ p, m.proc? pid = some p → ∀ v : FrameView, Context.frameView v ∈ m.contexts →
    v.process = pid → v.generation < p.generation

theorem modifyProcSetProc (T : Process → Process) (keeps : ∀ a : Process, (T a).id = a.id)
    (q : Process) :
    (m.setProc q).modifyProc pid T =
      (m.modifyProc pid T).setProc (if q.id = pid then T q else q) := by
  simp only [setProc, modifyProcFirst]
  by_cases hq : q.id = pid
  · rw [if_pos hq]
    subst hq
    rw [modifyFirstTwice (fun _ _ => rfl), keeps q,
      @modifyFirstTwice q.id (fun _ => T q) T (fun a h => (keeps a).trans h)]
  · rw [if_neg hq, @modifyFirstComm pid T (fun _ => q) q.id (Ne.symm hq)
      (fun a h => (keeps a).trans h) (fun _ _ => rfl)]

theorem procShift (q : Nat) :
    (m.shift pid).proc? q = if q = pid then (m.proc? pid).map Process.shift else m.proc? q :=
  procModifyProc m pid q _ fun _ h => h

theorem procShiftFound (found : m.proc? pid = some p) : (m.shift pid).proc? pid = some p.shift := by
  rw [procShift, if_pos rfl, found]
  rfl

theorem procShiftOther {q : Nat} (other : q ≠ pid) : (m.shift pid).proc? q = m.proc? q := by
  rw [procShift, if_neg other]

theorem shiftOther (same : m'.procs = m.procs) :
    m'.shift pid = { m' with procs := (m.shift pid).procs } := by
  simp only [shift, modifyProcFirst, same]

theorem shiftEq (m : Machine) : m.shift pid = { m with procs := (m.shift pid).procs } :=
  shiftOther rfl

@[simp] theorem shiftCodes : (m.shift pid).codes = m.codes := by rw [shiftEq]
@[simp] theorem shiftContexts : (m.shift pid).contexts = m.contexts := by rw [shiftEq]
@[simp] theorem shiftLocks : (m.shift pid).locks = m.locks := by rw [shiftEq]
@[simp] theorem shiftNextFrame : (m.shift pid).nextFrame = m.nextFrame := by rw [shiftEq]
@[simp] theorem shiftBudget : (m.shift pid).budget = m.budget := by rw [shiftEq]
@[simp] theorem shiftCoverage : (m.shift pid).coverage = m.coverage := by rw [shiftEq]

theorem namesShift : (m.shift pid).names = m.names := by
  rw [shiftEq]
  rfl

theorem codeOrEmptyShift (c : CodeId) : (m.shift pid).codeOrEmpty c = m.codeOrEmpty c := by
  rw [shiftEq]
  rfl

theorem setProcShift (found : m.proc? pid = some p) {q q' : Process} (same : q.id = p.id)
    (shifted : q' = q.shift := by rfl) : (m.shift pid).setProc q' = (m.setProc q).shift pid := by
  subst shifted
  rw [shift, shift, modifyProcSetProc Process.shift (fun _ => rfl) q,
    if_pos (same.trans (procIdOf found))]

theorem setProcShiftOther {q : Process} (other : q.id ≠ pid) :
    (m.shift pid).setProc q = (m.setProc q).shift pid := by
  rw [shift, shift, modifyProcSetProc Process.shift (fun _ => rfl) q, if_neg other]

theorem modifyCodeShift (c : CodeId) (f : Code → Code) :
    (m.shift pid).modifyCode c f = (m.modifyCode c f).shift pid := by
  rw [shiftOther (show (m.modifyCode c f).procs = m.procs from rfl)]
  conv => lhs; rw [shiftEq m]
  rfl

theorem nextFrameShift (n : Nat) :
    { m.shift pid with nextFrame := n } = ({ m with nextFrame := n } : Machine).shift pid := by
  rw [shiftOther (show ({ m with nextFrame := n } : Machine).procs = m.procs from rfl)]
  conv => lhs; rw [shiftEq m]

theorem lockedShift (locks : LockTable) (mutex : MutexId) :
    ({ m.shift pid with locks := locks } : Machine).addHold mutex =
      ((({ m with locks := locks } : Machine).addHold mutex).1.shift pid,
        (({ m with locks := locks } : Machine).addHold mutex).2) := by
  rw [shiftOther (show (({ m with locks := locks } : Machine).addHold mutex).1.procs = m.procs
    from rfl)]
  conv => lhs; rw [shiftEq m]
  rfl

@[simp] theorem setProcContexts (m : Machine) (q : Process) : (m.setProc q).contexts = m.contexts := by
  rw [setProc, modifyProcFirst]

/-! Dark views. -/

theorem Dark.of (dark : Dark pid m) (views : ∀ v : FrameView, Context.frameView v ∈ m'.contexts →
      Context.frameView v ∈ m.contexts)
    (same : ∀ q, m'.proc? pid = some q → ∃ p, m.proc? pid = some p ∧ p.generation ≤ q.generation) :
    Dark pid m' := by
  intro q found v mem own
  obtain ⟨p, found', le⟩ := same q found
  exact Nat.lt_of_lt_of_le (dark p found' v (views v mem) own) le

theorem Dark.ofProcs (dark : Dark pid m) (procs : m'.procs = m.procs)
    (contexts : m'.contexts = m.contexts) : Dark pid m' :=
  dark.of (fun _ mem => contexts ▸ mem) fun q found =>
    ⟨q, (procOfProcs procs pid).symm.trans found, Nat.le_refl _⟩

theorem Dark.setProc (dark : Dark pid m) {q : Process}
    (same : q.id = pid → ∃ p, m.proc? pid = some p ∧ p.generation ≤ q.generation) :
    Dark pid (m.setProc q) := by
  refine dark.of (fun v mem => by simpa using mem) fun r found => ?_
  rw [procSetProc] at found
  split at found
  · rename_i own
    obtain ⟨p, found', le⟩ := same own.symm
    rw [← own, found'] at found
    cases found
    exact ⟨p, found', le⟩
  · exact ⟨r, found, Nat.le_refl _⟩

theorem Dark.setFound (dark : Dark pid m) (found : m.proc? pid = some p) {q : Process}
    (same : q.generation = p.generation) : Dark pid (m.setProc q) :=
  dark.setProc fun _ => ⟨p, found, Nat.le_of_eq same.symm⟩

theorem Dark.shift (dark : Dark pid m) : Dark pid (m.shift pid) := by
  refine dark.of (fun v mem => by simpa using mem) fun q found => ?_
  rw [procShift, if_pos rfl] at found
  obtain ⟨p, found', rfl⟩ := Option.map_eq_some_iff.mp found
  exact ⟨p, found', Nat.le_succ _⟩

theorem Dark.setContext (dark : Dark pid m) (id : ContextId) (b : Bindings) :
    Dark pid (m.setContext id (.bindings b)) := by
  refine dark.of (fun v mem => ?_) fun q found => ⟨q, found, Nat.le_refl _⟩
  rcases Array.mem_or_eq_of_mem_setIfInBounds mem with old | new
  · exact old
  · cases new

theorem Dark.setViewLocal (dark : Dark pid m) (v : FrameView) (i : Nat) (x : Value) :
    Dark pid (m.setViewLocal v i x).1 := by
  rcases setViewLocalEq m v i x with same | ⟨p, k, f, found, -, set⟩
  · rw [same]
    exact dark
  · rw [set]
    refine dark.setProc fun own => ?_
    have at_ : m.proc? pid = some p := (procIdOf found).symm.trans own ▸ found
    exact ⟨p, at_, Nat.le_refl _⟩

/-! What reads and writes through contexts does alike. -/

theorem viewValidShift (dark : Dark pid m) {v : FrameView} (mem : Context.frameView v ∈ m.contexts) :
    (m.shift pid).viewValid v = m.viewValid v := by
  unfold viewValid
  by_cases own : v.process = pid
  · rw [own, procShift, if_pos rfl]
    cases found : m.proc? pid with
    | none => rfl
    | some p =>
      -- the view was made before either generation
      have before := dark p found v mem own
      have now : (p.generation == v.generation) = false := by simp; omega
      have next : (p.shift.generation == v.generation) = false := by simp; omega
      simp only [Option.map_some]
      rw [now, next]
  · rw [procShiftOther own]

theorem viewLocalsShift (v : FrameView) : (m.shift pid).viewLocals? v = m.viewLocals? v := by
  unfold viewLocals?
  by_cases own : v.process = pid
  · rw [own, procShift, if_pos rfl]
    cases m.proc? pid <;> rfl
  · rw [procShiftOther own]

theorem lookupInShift (dark : Dark pid m) : ∀ (fuel : Nat) (ctx : ContextId) (name : String),
    (m.shift pid).lookupIn fuel ctx name = m.lookupIn fuel ctx name
  | 0, _, _ => rfl
  | fuel + 1, ctx, name => by
    rw [lookupIn, lookupIn]
    simp only [context?, shiftContexts]
    cases hc : m.contexts[ctx.index]? with
    | none => rfl
    | some c =>
      cases c with
      | bindings b => rfl
      | frameView v =>
        simp only [viewValidShift dark (Array.mem_of_getElem? hc), viewLocalsShift,
          lookupInShift dark fuel]

theorem lookupShift (dark : Dark pid m) (q : Process) (name : String) :
    (m.shift pid).lookup q name = m.lookup q name := by
  simp only [lookup, contextLookup, contextFuel, shiftContexts, lookupInShift dark]

theorem objectOfShift : ∀ (fuel : Nat) (ctx : ContextId),
    (m.shift pid).objectOf fuel ctx = m.objectOf fuel ctx
  | 0, _ => rfl
  | fuel + 1, ctx => by
    have same : (m.shift pid).objectOf fuel = m.objectOf fuel := funext (objectOfShift fuel)
    simp only [objectOf, context?, shiftContexts, same]

theorem invokingObjectShift (q : Process) : (m.shift pid).invokingObject q = m.invokingObject q := by
  have same : (m.shift pid).contextObject = m.contextObject := by
    funext c
    simp only [contextObject, contextFuel, shiftContexts, objectOfShift]
  simp only [invokingObject, same]

theorem setContextShift (id : ContextId) (c : Context) :
    (m.shift pid).setContext id c = (m.setContext id c).shift pid := by
  rw [shiftOther (show (m.setContext id c).procs = m.procs from rfl)]
  conv => lhs; rw [shiftEq m]
  rfl

theorem setViewLocalShift {v : FrameView} (other : v.process ≠ pid) (i : Nat) (x : Value) :
    (m.shift pid).setViewLocal v i x =
      ((m.setViewLocal v i x).1.shift pid, (m.setViewLocal v i x).2) := by
  unfold setViewLocal
  rw [procShiftOther other]
  cases found : m.proc? v.process with
  | none => rfl
  | some p =>
    simp only
    split
    · rfl
    · split
      · split
        · have hid := procIdOf found
          rw [setProcShiftOther]
          exact fun h => other (hid.symm.trans h)
        · rfl
      · rfl

theorem firstAssignShift {fuel : Nat} {name : String} {x : Value}
    (step : ∀ (m : Machine) (c : ContextId), Dark pid m →
      (m.shift pid).assignIn fuel c name x = (m.assignIn fuel c name x).map
        (fun r => (r.1.shift pid, r.2)) ∧
      ∀ r, m.assignIn fuel c name x = .ok r → Dark pid r.1) :
    ∀ (cs : List ContextId) (m : Machine), Dark pid m →
      assignIn.firstAssign fuel (m.shift pid) cs name x =
        (assignIn.firstAssign fuel m cs name x).map (fun r => (r.1.shift pid, r.2)) ∧
      ∀ r, assignIn.firstAssign fuel m cs name x = .ok r → Dark pid r.1
  | [], m, dark => by
    rw [assignIn.firstAssign.eq_1, assignIn.firstAssign.eq_1]
    exact ⟨rfl, fun r done => by cases done; exact dark⟩
  | c :: cs, m, dark => by
    rw [assignIn.firstAssign.eq_2, assignIn.firstAssign.eq_2]
    obtain ⟨same, kept⟩ := step m c dark
    rw [same]
    cases h : m.assignIn fuel c name x with
    | error e => exact ⟨rfl, fun r done => by cases done⟩
    | ok r =>
      obtain ⟨m₁, done⟩ := r
      have dark₁ := kept _ h
      cases done
      · exact firstAssignShift step cs m₁ dark₁
      · exact ⟨rfl, fun r finished => by cases finished; exact dark₁⟩

theorem assignInShift : ∀ (fuel : Nat) (m : Machine) (ctx : ContextId) (name : String) (x : Value),
    Dark pid m →
      (m.shift pid).assignIn fuel ctx name x =
        (m.assignIn fuel ctx name x).map (fun r => (r.1.shift pid, r.2)) ∧
      ∀ r, m.assignIn fuel ctx name x = .ok r → Dark pid r.1
  | 0, m, ctx, name, x, dark => by
    rw [assignIn.eq_1, assignIn.eq_1]
    exact ⟨rfl, fun r done => by cases done; exact dark⟩
  | fuel + 1, m, ctx, name, x, dark => by
    rw [assignIn.eq_2, assignIn.eq_2]
    simp only [context?, shiftContexts]
    cases hc : m.contexts[ctx.index]? with
    | none => exact ⟨rfl, fun r done => by cases done; exact dark⟩
    | some c =>
      cases c with
      | bindings b =>
        dsimp only
        cases b.assign? name x with
        | none => exact ⟨rfl, fun r done => by cases done; exact dark⟩
        | some b' =>
          refine ⟨by dsimp only; rw [setContextShift]; rfl, fun r done => ?_⟩
          dsimp only at done
          cases done
          exact dark.setContext ctx b'
      | frameView v =>
        have mem := Array.mem_of_getElem? hc
        dsimp only
        rw [viewValidShift dark mem, viewLocalsShift]
        by_cases valid : m.viewValid v = true
        · -- a view that answers is not one of process pid's
          have other : v.process ≠ pid := by
            intro own
            unfold viewValid at valid
            rw [own] at valid
            cases found : m.proc? pid with
            | none => rw [found] at valid; cases valid
            | some p =>
              rw [found] at valid
              have := dark p found v mem own
              simp at valid
              omega
          simp only [valid, Bool.not_true, Bool.false_eq_true, ↓reduceIte]
          cases v.localNames.findIdx? (· == name) with
          | some i =>
            dsimp only
            split
            · exact ⟨rfl, fun r done => by cases done⟩
            · refine ⟨by rw [setViewLocalShift other]; rfl, fun r done => ?_⟩
              cases done
              exact dark.setViewLocal v i x
          | none =>
            exact firstAssignShift (fun m c dark => assignInShift fuel m c name x dark) _ m dark
        · simp only [valid, Bool.not_false, ↓reduceIte]
          exact ⟨rfl, fun r done => by cases done⟩

theorem assignNameShift (name : String) (x : Value) : ∀ (cs : List ContextId) (m : Machine),
    Dark pid m →
      (m.shift pid).assignName cs name x =
        (m.assignName cs name x).map (fun r => (r.1.shift pid, r.2)) ∧
      ∀ r, m.assignName cs name x = .ok r → Dark pid r.1
  | [], m, dark => ⟨rfl, fun r done => by cases done; exact dark⟩
  | c :: cs, m, dark => by
    simp only [assignName, contextAssign, contextFuel, shiftContexts]
    obtain ⟨same, kept⟩ := assignInShift (m.contexts.size + 1) m c name x dark
    rw [same]
    cases h : m.assignIn (m.contexts.size + 1) c name x with
    | error e => exact ⟨rfl, fun r done => by cases done⟩
    | ok r =>
      obtain ⟨m₁, done⟩ := r
      have dark₁ := kept _ h
      cases done
      · exact assignNameShift name x cs m₁ dark₁
      · exact ⟨rfl, fun r finished => by cases finished; exact dark₁⟩

end Machine

namespace Exec

open Machine

variable {pid : Nat} {α β : Type}

/-- Running \x60x\x60 does not see the generation of process \x60pid\x60 while its views are dark:
from the engine with that process started once more it gives the same answer and the same
state started once more; and the views stay dark. -/
def Blind (pid : Nat) {α : Type} (x : Exec α) : Prop :=
  ∀ m, Dark pid m → x.run (m.shift pid) = ((x.run m).1, (x.run m).2.shift pid) ∧ Dark pid (x.run m).2

theorem blindPure (a : α) : Blind pid (pure a : Exec α) := fun _ dark => ⟨rfl, dark⟩

theorem blindThrow (e : Fault) : Blind pid (throw e : Exec α) := fun _ dark => ⟨rfl, dark⟩

theorem blindThrowBind (e : Fault) (f : α → Exec β) : Blind pid (throw e >>= f) :=
  fun _ dark => ⟨rfl, dark⟩

theorem blindLiftFault (r : Except Fault α) : Blind pid (liftFault r) := by
  intro _ dark
  cases r <;> exact ⟨rfl, dark⟩

theorem blindBind {x : Exec α} {f : α → Exec β} (first : Blind pid x) (next : ∀ a, Blind pid (f a)) :
    Blind pid (x >>= f) := by
  intro m dark
  obtain ⟨same, dark₁⟩ := first m dark
  rw [runBind, runBind, same]
  rcases h : x.run m with ⟨_ | a, m₁⟩
  · rw [h] at dark₁
    exact ⟨rfl, dark₁⟩
  · rw [h] at dark₁
    exact next a m₁ dark₁

theorem blindIte {c : Prop} [Decidable c] {x y : Exec β} (hx : Blind pid x) (hy : Blind pid y) :
    Blind pid (if c then x else y) := by
  split
  · exact hx
  · exact hy

theorem blindGuard {c : Prop} [Decidable c] {e : Fault} {k : Unit → Exec β} (rest : Blind pid (k ())) :
    Blind pid (if c then throw e >>= k else k ()) :=
  blindIte (blindThrowBind e k) rest

theorem blindDiscard {x : Exec α} (hx : Blind pid x) : Blind pid (discard x) := by
  rw [discardBind]
  exact blindBind hx fun _ => blindPure _

theorem runProcNone {m : Machine} {q : Nat} (gone : m.proc? q = none) :
    (proc q).run m = (.error (.runtimeError .noActiveFrame), m) := by
  unfold proc
  rw [runBind, runGet]
  simp only [gone]
  rfl

theorem blindBindProc {f : Process → Exec β}
    (next : ∀ m p, Dark pid m → m.proc? pid = some p →
      (f p.shift).run (m.shift pid) = ((f p).run m).map (fun a => a) (shift pid) ∧
        Dark pid ((f p).run m).2) :
    Blind pid (proc pid >>= f) := by
  intro m dark
  cases found : m.proc? pid with
  | none =>
    have gone : (m.shift pid).proc? pid = none := by rw [procShift, if_pos rfl, found]; rfl
    rw [runBind, runBind, runProcNone gone, runProcNone found]
    exact ⟨rfl, dark⟩
  | some p =>
    rw [runBind, runBind, runProcFound (procShiftFound found), runProcFound found]
    exact next m p dark found

theorem blindBindGet {f : Machine → Exec β}
    (next : ∀ m, Dark pid m →
      (f (m.shift pid)).run (m.shift pid) = ((f m).run m).map (fun a => a) (shift pid) ∧
        Dark pid ((f m).run m).2) :
    Blind pid (get >>= f) := next

theorem setProcThenShift {m : Machine} {p q : Process} {rest : Exec β} (dark : Dark pid m)
    (found : m.proc? pid = some p) (same : q.id = p.id) (gen : q.generation = p.generation)
    (next : Blind pid rest) :
    (setProc q.shift >>= fun _ => rest).run (m.shift pid) =
      (((setProc q >>= fun _ => rest).run m).1, ((setProc q >>= fun _ => rest).run m).2.shift pid) ∧
      Dark pid ((setProc q >>= fun _ => rest).run m).2 := by
  rw [runBind, runBind]
  show rest.run ((m.shift pid).setProc q.shift) = _ ∧ Dark pid (rest.run (m.setProc q)).2
  rw [setProcShift found same]
  exact next _ (dark.setFound found gen)

theorem setProcShiftKeep {m : Machine} {p q : Process} (dark : Dark pid m)
    (found : m.proc? pid = some p) (same : q.id = p.id) (gen : q.generation = p.generation) :
    (setProc q.shift).run (m.shift pid) =
      (((setProc q).run m).1, ((setProc q).run m).2.shift pid) ∧ Dark pid ((setProc q).run m).2 := by
  show (_, (m.shift pid).setProc q.shift) = _ ∧ Dark pid (m.setProc q)
  rw [setProcShift found same]
  exact ⟨rfl, dark.setFound found gen⟩

theorem setThenShift {m m' : Machine} {rest : Exec β} (dark : Dark pid m') (next : Blind pid rest) :
    (set (m'.shift pid) >>= fun _ => rest).run (m.shift pid) =
      ((set m' >>= fun _ => rest).run m).map (fun a => a) (shift pid) ∧
      Dark pid ((set m' >>= fun _ => rest).run m).2 := by
  rw [runBind, runBind]
  exact next m' dark

/-! The primitives. -/

theorem blindPush (v : Value) : Blind pid (push pid v) := by
  unfold push
  refine blindBindProc fun m p dark found => ?_
  rw [runBind, runBind, Process.shiftPushValue]
  cases h : p.pushValue v with
  | error e => exact ⟨rfl, dark⟩
  | ok q =>
    have step := Process.pushValueStep h
    exact setProcShiftKeep dark found step.id step.generation

theorem blindPop : Blind pid (pop pid) := by
  unfold pop
  refine blindBindProc fun m p dark found => ?_
  rw [runBind, runBind, Process.shiftPopValue]
  cases h : p.popValue with
  | error e => exact ⟨rfl, dark⟩
  | ok r =>
    obtain ⟨q, v⟩ := r
    have step := Process.popValueStep h
    exact setProcThenShift dark found step.id step.generation (blindPure v)

theorem blindPeek : Blind pid (peek pid) := by
  unfold peek
  refine blindBindProc fun m p dark found => ?_
  rw [Process.shiftPeekValue]
  cases p.peekValue <;> exact ⟨rfl, dark⟩

theorem blindTopFrame : Blind pid (topFrame pid) := by
  unfold topFrame
  refine blindBindProc fun m p dark found => ?_
  rw [Process.shiftFrames]
  cases p.frames.back? <;> exact ⟨rfl, dark⟩

theorem blindModifyTop (g : Frame → Frame) : Blind pid (modifyTop pid g) := by
  unfold modifyTop
  refine blindBindProc fun m p dark found => ?_
  rw [Process.shiftModifyTop]
  exact setProcShiftKeep dark found (Process.modifyTopId p g) (Process.modifyTopGeneration p g)

theorem blindStoreLocal (i : Nat) (v : Value) : Blind pid (storeLocal pid i v) := by
  unfold storeLocal
  refine blindBind blindTopFrame fun f => ?_
  exact blindIte (blindModifyTop _) (blindThrow _)

theorem runPushFrameShift {code : CodeId} {w : Bool} {m : Machine} {p : Process}
    (dark : Dark pid m) (found : m.proc? pid = some p) :
    (pushFrame pid code w).run (m.shift pid) =
      (((pushFrame pid code w).run m).1, ((pushFrame pid code w).run m).2.shift pid) ∧
      Dark pid ((pushFrame pid code w).run m).2 := by
  rw [runPushFrame (procShiftFound found), runPushFrame found]
  simp only [Process.shiftFrames, Process.shiftLimits, codeOrEmptyShift]
  split
  · exact ⟨rfl, dark⟩
  · -- relocating the unit and taking a serial leave the processes alone
    have relocated : (if (m.codeOrEmpty code).needsRelocation then
        (m.shift pid).modifyCode code Code.relocate else m.shift pid) =
        (if (m.codeOrEmpty code).needsRelocation then m.modifyCode code Code.relocate
          else m).shift pid := by
      split
      · exact modifyCodeShift _ _
      · rfl
    rw [relocated]
    generalize hm₁ : (if (m.codeOrEmpty code).needsRelocation then m.modifyCode code Code.relocate
      else m) = m₁
    have found₁ : m₁.proc? pid = some p := by
      rw [← hm₁]
      split
      · exact (procOfProcs rfl pid).trans found
      · exact found
    have dark₁ : Dark pid m₁ := by
      rw [← hm₁]
      split
      · exact dark.ofProcs rfl rfl
      · exact dark
    rw [codeOrEmptyShift, shiftNextFrame, Process.shiftPushFrame]
    have found₂ : ({ m₁ with nextFrame := m₁.nextFrame + 1 } : Machine).proc? pid = some p :=
      (procOfProcs rfl pid).trans found₁
    have dark₂ : Dark pid ({ m₁ with nextFrame := m₁.nextFrame + 1 } : Machine) :=
      dark₁.ofProcs rfl rfl
    cases h : p.pushFrame code (m₁.codeOrEmpty code).locals.size m₁.nextFrame w with
    | error e => exact ⟨by rw [nextFrameShift]; rfl, dark₂⟩
    | ok q =>
      have step : p.Step q := .pushFrame _ _ _ _ h
      refine ⟨?_, dark₂.setFound found₂ step.generation⟩
      show (_, ({ m₁.shift pid with nextFrame := m₁.nextFrame + 1 } : Machine).setProc q.shift) = _
      rw [nextFrameShift, setProcShift found₂ step.id]

theorem blindPushFrame (code : CodeId) (w : Bool) : Blind pid (pushFrame pid code w) := by
  intro m dark
  cases found : m.proc? pid with
  | none =>
    have gone : (m.shift pid).proc? pid = none := by rw [procShift, if_pos rfl, found]; rfl
    unfold pushFrame
    rw [runBind, runBind, runProcNone gone, runProcNone found]
    exact ⟨rfl, dark⟩
  | some p => exact runPushFrameShift dark found

theorem blindJump (c : Code) (j : Jump) : Blind pid (jump pid c j) := by
  unfold jump
  refine blindGuard (blindGuard (blindIte ?_ ?_))
  · refine blindBindProc fun m p dark found => ?_
    rw [Process.shiftPushHandler]
    exact setProcShiftKeep dark found rfl rfl
  · -- the condition reads the top value only; then an optional pop and the frame moves on
    have rest : ∀ taken : Bool, Blind pid (if j.pop = true then
        discard (pop pid) >>= fun _ =>
          if taken = true then modifyTop pid (fun f => { f with pc := j.target }) else pure ()
        else if taken = true then modifyTop pid (fun f => { f with pc := j.target })
          else pure ()) := fun taken =>
      blindIte (blindBind (blindDiscard blindPop) fun _ => blindIte (blindModifyTop _) (blindPure _))
        (blindIte (blindModifyTop _) (blindPure _))
    dsimp only
    split
    · exact blindBind blindPeek fun _ => blindBind (blindPure _) rest
    · exact blindBind blindPeek fun _ => blindBind (blindPure _) rest
    · exact blindBind blindPeek fun _ => blindBind (blindPure _) rest
    · exact blindBind (blindPure _) rest

theorem blindCall (args : Nat) (w : Bool) : Blind pid (call pid args w) := by
  unfold call
  refine blindBind blindPop fun callee => ?_
  split
  · refine blindBind (blindPure _) fun c => blindBindGet fun m dark => ?_
    simp only [codeOrEmptyShift]
    refine blindGuard (blindGuard (blindBindProc fun m p dark found => ?_)) m dark
    simp only [Process.shiftValues, show p.shift.valueFloor = p.valueFloor from rfl]
    split
    · exact ⟨rfl, dark⟩
    · -- the arguments go to the callee's frame; the caller keeps what lies below them
      exact setProcThenShift (q := { p with values := p.values.take (p.values.size - args) })
        dark found rfl rfl (blindBind (blindPushFrame _ _) fun _ => blindModifyTop _)
  · exact blindThrowBind _ _

theorem blindControl (k : Control) : Blind pid (control pid k) := by
  cases k with
  | uncatch =>
    refine blindBindProc fun m p dark found => ?_
    rw [Process.shiftPopHandler]
    cases h : p.popHandler with
    | none => exact ⟨rfl, dark⟩
    | some r =>
      obtain ⟨q, hd⟩ := r
      have step : p.Step q := .popHandler h
      exact setProcThenShift dark found step.id step.generation (blindPure _)
  | throw =>
    refine blindBind blindPop fun v => blindBindGet fun m dark => ?_
    rw [namesShift]
    exact ⟨rfl, dark⟩
  | terminate | suspend | stop => exact blindPure _
  | enter =>
    refine blindBind blindPop fun v => ?_
    split
    · refine blindBindProc fun m p dark found => ?_
      rename_i c
      rw [show p.shift.pushContext c = (p.pushContext c).shift from rfl, Process.shiftMarkContextTos]
      have step : p.Step _ := .enter c
      exact setProcThenShift dark found step.id step.generation (blindPure _)
    · exact blindThrow _
  | leave =>
    refine blindBind blindTopFrame fun f => blindBindProc fun m p dark found => ?_
    dsimp only
    rw [Process.shiftContexts]
    by_cases above : p.contexts.size ≤ f.contextSp
    · rw [if_pos above, if_pos above]
      exact ⟨rfl, dark⟩
    · rw [if_neg above, if_neg above,
        show p.shift.popContext.1 = p.popContext.1.shift from rfl, Process.shiftMarkContextTos]
      exact setProcThenShift (q := p.popContext.1.markContextTos.1) dark found
        (by simp [Process.markContextTos, Process.popContext]) (Process.modifyTopGeneration _ _)
        (blindPure _)
  | lock =>
    refine blindBind blindPop fun note => blindBind blindPop fun name => ?_
    cases name with
    | str s =>
      refine blindBind (blindPure _) fun lockName => blindBindGet fun m dark => ?_
      rw [namesShift, shiftLocks, runBind, runBind]
      cases m.locks.create lockName (if note.isEmpty = true then "" else note.display m.names)
        (some pid) with
      | error e => exact ⟨rfl, dark⟩
      | ok r =>
        obtain ⟨locks, mutex⟩ := r
        rw [runLiftOk, runLiftOk]
        dsimp only
        rw [lockedShift]
        exact setThenShift (dark.ofProcs rfl rfl) (blindBind (blindPush _) fun _ => blindPure _)
    | _ => exact blindThrowBind _ _

theorem blindPushThen (v : Value) : Blind pid (push pid v >>= fun _ => pure Outcome.continue) :=
  blindBind (blindPush v) fun _ => blindPure _

theorem blindInstr (c : Code) : ∀ op, Blind pid (instr pid c op)
  | .nop | .label _ => blindPure _
  | .pushLiteral i => by
    dsimp only [instr]
    split
    · exact blindPushThen _
    · exact blindThrow _
  | .pushLocal i => by
    refine blindBind blindTopFrame fun f => ?_
    split
    · exact blindPushThen _
    · exact blindThrow _
  | .storeLocal i => blindBind blindPeek fun v => blindBind (blindStoreLocal i v) fun _ => blindPure _
  | .popLocal i => blindBind blindPop fun v => blindBind (blindStoreLocal i v) fun _ => blindPure _
  | .pushName i => by
    dsimp only [instr]
    split
    · refine blindBind (blindPure _) fun name => blindBindGet fun m dark => ?_
      -- a lookup sees views of process pid dark on both sides
      simp only [lookupShift dark]
      refine blindBindProc (fun m' p dark' found => ?_) m dark
      rw [show m.lookup p.shift name = m.lookup p name from rfl]
      cases m.lookup p name with
      | none => exact ⟨rfl, dark'⟩
      | some v => exact blindPushThen v m' dark'
    · exact blindThrowBind _ _
  | .storeName i => by
    dsimp only [instr]
    split
    · refine blindBind (blindPure _) fun name => blindBind blindPeek fun v =>
        blindBindProc fun m p dark found => ?_
      rw [Process.shiftContexts, runBind, runBind, runGet, runGet]
      dsimp only
      obtain ⟨same, kept⟩ := assignNameShift name v p.contexts.reverse.toList m dark
      rw [same, runBind, runBind]
      cases h : m.assignName p.contexts.reverse.toList name v with
      | error e => exact ⟨rfl, dark⟩
      | ok r =>
        obtain ⟨m₁, done⟩ := r
        dsimp only [Except.map]
        rw [runLiftOk, runLiftOk]
        dsimp only
        exact setThenShift (kept _ h) (blindIte (blindPure _) (blindThrow _))
    · exact blindThrowBind _ _
  | .binary op => blindBind blindPop fun b => blindBind blindPop fun a =>
    blindBindGet fun m dark => by
      rw [namesShift]
      exact (blindBind (blindLiftFault _) fun r => blindPushThen r) m dark
  | .unary op => blindBind blindPop fun a => blindBind (blindLiftFault _) fun r => blindPushThen r
  | .drop n => blindBindProc fun m p dark found => by
    simp only [Process.shiftValues, show p.shift.valueFloor = p.valueFloor from rfl]
    split
    · exact ⟨rfl, dark⟩
    · exact setProcThenShift (q := { p with values := p.values.take (p.values.size - n) })
        dark found rfl rfl (blindPure _)
  | .dup d => blindBindProc fun m p dark found => by
    rw [Process.shiftValues, show p.shift.valueFloor = p.valueFloor from rfl]
    dsimp only
    split
    · exact ⟨rfl, dark⟩
    · cases p.values[p.values.size - (d + 1)]? with
      | none => exact ⟨rfl, dark⟩
      | some v => exact blindPushThen v m dark
  | .jump j => blindBind (blindJump c j) fun _ => blindPure _
  | .call args w => blindBind (blindCall args w) fun _ => blindPure _
  | .ret 0 => blindPure _
  | .ret 1 => blindBind blindPop fun _ => blindPure _
  | .ret (n + 2) => blindThrow _
  | .control k => blindControl k

end Exec

namespace Machine

variable {pid : Nat}

theorem stepShift (m : Machine) (dark : Dark pid m) :
    (m.shift pid).step pid = ((m.step pid).1.shift pid, (m.step pid).2) ∧
      Dark pid (m.step pid).1 := by
  cases found : m.proc? pid with
  | none =>
    have gone : (m.shift pid).proc? pid = none := by rw [procShift, if_pos rfl, found]; rfl
    simp only [step, found, gone]
    exact ⟨trivial, dark⟩
  | some p =>
    rcases top : p.frames.back? with _ | f
    · simp only [step, found, procShiftFound found, Process.shiftFrames, top]
      exact ⟨trivial, dark⟩
    rcases hop : (m.codeOrEmpty f.code).instr? f.pc with _ | op
    · simp only [step, found, procShiftFound found, Process.shiftFrames, top, codeOrEmptyShift, hop]
      exact ⟨trivial, dark⟩
    -- the program counter moves on the same way in both, then the instruction runs blind
    have advance := setProcShift found (Process.modifyTopId p fun f => { f with pc := f.pc + 1 })
    have darkAdvance : Dark pid (m.setProc (p.modifyTop fun f => { f with pc := f.pc + 1 })) :=
      dark.setFound found (Process.modifyTopGeneration _ _)
    obtain ⟨same, kept⟩ := Exec.blindInstr (m.codeOrEmpty f.code) op _ darkAdvance
    simp only [step, found, procShiftFound found, Process.shiftFrames, top, codeOrEmptyShift, hop,
      Process.shiftModifyTop, advance, same]
    exact ⟨rfl, kept⟩

/-! Settling reads of each process only its \x60refs\x60. -/

theorem refsModifyFirst {T : Process → Process} (keeps : ∀ a, (T a).refs = a.refs) :
    ∀ l : List Process, (modifyFirst pid T l).map Process.refs = l.map Process.refs
  | [] => rfl
  | a :: l => by
    by_cases own : a.id = pid
    · simp [modifyFirst, own, keeps a]
    · simp [modifyFirst, own, refsModifyFirst keeps l]

theorem settleContextsProcs (m : Machine) (procs : Array Process) (roots : List ContextId) :
    ∀ fuel alive, ({ m with procs := procs } : Machine).settleContexts roots fuel alive =
      m.settleContexts roots fuel alive
  | 0, _ => rfl
  | fuel + 1, alive => by
    simp only [settleContexts, settleContextsProcs m procs roots fuel]
    rfl

theorem settleWithProcs {m : Machine} {procs : Array Process}
    (same : procs.toList.map Process.refs = m.procs.toList.map Process.refs) :
    ({ m with procs := procs } : Machine).settle = { m.settle with procs := procs } := by
  have values : (procs.toList.flatMap fun p => (p.refs).1) =
      m.procs.toList.flatMap fun p => (p.refs).1 := by
    rw [← List.flatMap_map, same, List.flatMap_map]
  have contexts : (procs.toList.flatMap fun p => (p.refs).2) =
      m.procs.toList.flatMap fun p => (p.refs).2 := by
    rw [← List.flatMap_map, same, List.flatMap_map]
  simp only [Process.refs] at values contexts
  unfold settle rootValues
  dsimp only
  rw [values, contexts, settleContextsProcs]
  split <;> rfl

theorem settleModifyProc (m : Machine) (q : Nat) {T : Process → Process}
    (keeps : ∀ a, (T a).refs = a.refs) :
    (m.modifyProc q T).settle = m.settle.modifyProc q T := by
  rw [modifyProcFirst, modifyProcFirst, settleWithProcs, settleProcs]
  simpa using refsModifyFirst keeps m.procs.toList

@[simp] theorem settleKeepsContexts (m : Machine) : m.settle.contexts = m.contexts := by
  unfold settle
  split <;> rfl

theorem Dark.settle {m : Machine} (dark : Dark pid m) : Dark pid m.settle :=
  dark.ofProcs (settleProcs m) (settleKeepsContexts m)

theorem settleShift (m : Machine) : (m.shift pid).settle = m.settle.shift pid :=
  settleModifyProc m pid Process.shiftRefs

theorem Dark.modifyProc (dark : Dark pid m) {T : Process → Process}
    (keeps : ∀ a : Process, a.id = pid → (T a).id = pid)
    (gen : ∀ a : Process, (T a).generation = a.generation) : Dark pid (m.modifyProc pid T) := by
  refine dark.of (fun v mem => by rwa [modifyProcFirst] at mem) fun q found => ?_
  rw [procModifyProc m pid pid T keeps, if_pos rfl] at found
  obtain ⟨p, found', rfl⟩ := Option.map_eq_some_iff.mp found
  exact ⟨p, found', Nat.le_of_eq (gen p).symm⟩

/-! The run loop around the instructions. -/

theorem observeContexts (m : Machine) : (m.observe pid).contexts = m.contexts := by
  unfold observe
  split
  · split <;> rfl
  · rfl

theorem observeShift (m : Machine) : (m.shift pid).observe pid = (m.observe pid).shift pid := by
  rw [shiftOther (observeProcs m pid)]
  have code : (m.shift pid).code? = m.code? := by rw [shiftEq]; rfl
  unfold observe
  rw [procShift, if_pos rfl, shiftCoverage, code, shiftCodes]
  cases m.coverage with
  | none => exact shiftEq m
  | some cov =>
    cases m.proc? pid with
    | none => exact shiftEq m
    | some p =>
      simp only [Option.map_some, Process.shiftFrames]
      cases p.frames.back? with
      | none => exact shiftEq m
      | some f => conv => lhs; rw [shiftEq m]

theorem prepareShift (m : Machine) (fuel : Nat) :
    ({ (m.shift pid).observe pid with budget := fuel } : Machine) =
      ({ m.observe pid with budget := fuel } : Machine).shift pid := by
  rw [observeShift, shiftOther (show ({ m.observe pid with budget := fuel } : Machine).procs =
    (m.observe pid).procs from rfl)]
  conv => lhs; rw [shiftEq (m.observe pid)]

theorem Dark.prepare (dark : Dark pid m) (fuel : Nat) :
    Dark pid ({ m.observe pid with budget := fuel } : Machine) :=
  dark.ofProcs (observeProcs m pid) (observeContexts m)

theorem exhaustShift (m : Machine) :
    ({ m.shift pid with budget := 0, exhausted := true } : Machine) =
      ({ m with budget := 0, exhausted := true } : Machine).shift pid := by
  rw [shiftOther (show ({ m with budget := 0, exhausted := true } : Machine).procs = m.procs
    from rfl)]
  conv => lhs; rw [shiftEq m]

theorem finishShift (dark : Dark pid m) (status : Status) :
    (m.shift pid).finish pid status = (m.finish pid status).shift pid ∧
      Dark pid (m.finish pid status) := by
  unfold finish
  cases found : m.proc? pid with
  | none =>
    rw [procShift, if_pos rfl, found]
    exact ⟨rfl, dark⟩
  | some p =>
    rw [procShiftFound found]
    dsimp only
    rw [invokingObjectShift]
    exact ⟨setProcShift found (by rfl), dark.setFound found (by rfl)⟩

theorem failWithShift (dark : Dark pid m) (message : String) :
    (m.shift pid).failWith pid message = (m.failWith pid message).shift pid ∧
      Dark pid (m.failWith pid message) := by
  unfold failWith
  cases found : m.proc? pid with
  | none =>
    rw [procShift, if_pos rfl, found]
    exact ⟨rfl, dark⟩
  | some p =>
    rw [procShiftFound found]
    dsimp only
    have trace : (m.shift pid).trace p.shift = m.trace p := by
      simp only [trace, codeOrEmptyShift, Process.shiftFrames]
    rw [trace, setProcShift (q := { p with failure := some ⟨message, m.trace p⟩ }) found rfl]
    exact finishShift (dark.setFound found (by rfl)) .failed

theorem raiseShift (dark : Dark pid m) (fault : Fault) :
    (m.shift pid).raise pid fault = ((m.raise pid fault).1.shift pid, (m.raise pid fault).2) ∧
      Dark pid (m.raise pid fault).1 := by
  unfold raise
  cases found : m.proc? pid with
  | none =>
    rw [procShift, if_pos rfl, found]
    exact ⟨rfl, dark⟩
  | some p =>
    rw [procShiftFound found]
    dsimp only
    rw [Process.shiftUnwind]
    have same := Process.unwindId p fault
    have gen := Process.unwindGeneration p fault
    rcases h : p.unwind fault with ⟨q, _ | _⟩
    · rw [h] at same gen
      dsimp only
      obtain ⟨failed, dark'⟩ := failWithShift (dark.setFound found gen) fault.message
      rw [setProcShift found same, failed]
      exact ⟨rfl, dark'⟩
    · rw [h] at same gen
      dsimp only
      exact ⟨by rw [setProcShift found same], dark.setFound found gen⟩

theorem leaveFrameShift (dark : Dark pid m) (v : Option Value) :
    (m.shift pid).leaveFrame pid v = (m.leaveFrame pid v).shift pid ∧
      Dark pid (m.leaveFrame pid v) := by
  unfold leaveFrame
  cases found : m.proc? pid with
  | none =>
    rw [procShift, if_pos rfl, found]
    exact ⟨rfl, dark⟩
  | some p =>
    rw [procShiftFound found]
    dsimp only
    rw [Process.shiftReturnFromFrame]
    cases h : p.returnFromFrame v with
    | none => exact ⟨rfl, dark⟩
    | some q =>
      exact ⟨setProcShift found (Process.returnFromFrameId h),
        dark.setFound found (Process.returnFromFrameGeneration h)⟩

theorem stopShift (m : Machine) (status : Status) :
    (m.shift pid).modifyProc pid (fun p => { p with status := status }) =
      (m.modifyProc pid fun p => { p with status := status }).shift pid := by
  simp only [shift, modifyProcFirst]
  rw [modifyFirstTwice (g := Process.shift) (fun _ h => h),
    modifyFirstTwice (g := fun p => { p with status := status }) (fun _ h => h)]
  rfl

/-- What the run loop does with the outcome of an instruction, \x60fuel\x60 instructions being
left. -/
def afterStep (pid : Nat) (temporary : Bool) (fuel : Nat) :
    Machine × Except Fault Outcome → Machine
  | (m, .ok .continue) => runLoop pid temporary fuel m.settle
  | (m, .ok (.ret v)) => runLoop pid temporary fuel (m.leaveFrame pid v).settle
  | (m, .ok (.suspend wait)) =>
    if temporary then
      match m.raise pid .cannotSuspend with
      | (m, true) => runLoop pid temporary fuel m.settle
      | (m, false) => m.settle
    else (m.modifyProc pid fun p => { p with status := if wait then .waiting else .suspended }).settle
  | (m, .ok .terminate) => (m.finish pid .terminated).settle
  | (m, .error e) =>
    match m.raise pid e with
    | (m, true) => runLoop pid temporary fuel m.settle
    | (m, false) => m.settle

theorem runLoopSucc {temporary : Bool} {fuel : Nat} (found : m.proc? pid = some p)
    (framed : p.frames.isEmpty = false) :
    runLoop pid temporary (fuel + 1) m =
      afterStep pid temporary fuel (({ m.observe pid with budget := fuel } : Machine).step pid) := by
  rw [runLoop, found]
  simp only [framed, Bool.false_eq_true, if_false]
  rcases (({ m.observe pid with budget := fuel } : Machine).step pid) with
    ⟨m', _ | _ | _ | _ | _⟩ <;> rfl

variable {temporary : Bool}

theorem afterStepShift {fuel : Nat}
    (rest : ∀ m, Dark pid m → runLoop pid temporary fuel (m.shift pid) =
      (runLoop pid temporary fuel m).shift pid)
    (dark : Dark pid m) : ∀ r : Except Fault Outcome,
      afterStep pid temporary fuel (m.shift pid, r) = (afterStep pid temporary fuel (m, r)).shift pid
  | .ok .continue => by
    rw [afterStep, afterStep, settleShift, rest _ dark.settle]
  | .ok (.ret v) => by
    obtain ⟨left, dark'⟩ := leaveFrameShift dark v
    rw [afterStep, afterStep, left, settleShift, rest _ dark'.settle]
  | .ok (.suspend wait) => by
    rw [afterStep, afterStep]
    cases temporary with
    | false => rw [if_neg Bool.false_ne_true, if_neg Bool.false_ne_true, stopShift, settleShift]
    | true =>
      rw [if_pos rfl, if_pos rfl]
      obtain ⟨raised, dark'⟩ := raiseShift dark .cannotSuspend
      rw [raised]
      rcases h : m.raise pid .cannotSuspend with ⟨m', _ | _⟩ <;> rw [h] at dark' <;> dsimp only
      · exact settleShift m'
      · rw [settleShift, rest _ dark'.settle]
  | .ok .terminate => by
    rw [afterStep, afterStep, (finishShift dark .terminated).1, settleShift]
  | .error e => by
    rw [afterStep, afterStep]
    obtain ⟨raised, dark'⟩ := raiseShift dark e
    rw [raised]
    rcases h : m.raise pid e with ⟨m', _ | _⟩ <;> rw [h] at dark' <;> dsimp only
    · exact settleShift m'
    · rw [settleShift, rest _ dark'.settle]

theorem runLoopGoneShift (gone : m.proc? pid = none) (fuel : Nat) :
    runLoop pid temporary fuel (m.shift pid) = (runLoop pid temporary fuel m).shift pid := by
  have gone' : (m.shift pid).proc? pid = none := by rw [procShift, if_pos rfl, gone]; rfl
  rw [runLoop.eq_def, runLoop.eq_def, gone, gone']

theorem runLoopDoneShift (dark : Dark pid m) (found : m.proc? pid = some p)
    (done : p.frames.isEmpty = true) (fuel : Nat) :
    runLoop pid temporary fuel (m.shift pid) = (runLoop pid temporary fuel m).shift pid := by
  rw [runLoop.eq_def, runLoop.eq_def, procShiftFound found, found]
  simp only [Process.shiftFrames, done, if_true]
  rw [(finishShift dark .ended).1, settleShift]

theorem runLoopShift : ∀ (fuel : Nat) (m : Machine), Dark pid m →
    runLoop pid temporary fuel (m.shift pid) = (runLoop pid temporary fuel m).shift pid := by
  intro fuel
  induction fuel with
  | zero =>
    intro m dark
    rcases found : m.proc? pid with _ | p
    · exact runLoopGoneShift found 0
    cases framed : p.frames.isEmpty
    · rw [runLoop, runLoop, procShiftFound found, found]
      simp only [Process.shiftFrames, framed, Bool.false_eq_true, if_false]
      exact exhaustShift m
    · exact runLoopDoneShift dark found framed 0
  | succ fuel ih =>
    intro m dark
    rcases found : m.proc? pid with _ | p
    · exact runLoopGoneShift found _
    cases framed : p.frames.isEmpty
    · -- one instruction on the prepared engine, then the rest of the loop
      have prepared := dark.prepare fuel
      obtain ⟨stepped, dark₁⟩ := stepShift _ prepared
      rw [runLoopSucc (procShiftFound found) framed, runLoopSucc found framed, prepareShift, stepped]
      rcases h : ({ m.observe pid with budget := fuel } : Machine).step pid with ⟨m₁, r⟩
      rw [h] at dark₁
      exact afterStepShift ih dark₁ r
    · exact runLoopDoneShift dark found framed _

end Machine

end ScriptEngine
