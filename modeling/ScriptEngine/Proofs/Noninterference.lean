import ScriptEngine.Proofs.FrameIsolation
/-!
An instruction does not read the values beneath the innermost frame's base. Replace the
values of a process below a depth `base` that is at most its innermost frame's base by
other values, as many: an instruction of that process then has the same outcome as before,
and leaves the state it left before with the same values replaced. The proof follows the
instructions through the primitives they are written with, as `StepEffects` does: each
primitive either leaves the process alone, reads it above the base, or changes it above the
base, and the replacement commutes with each.
-/
namespace ScriptEngine

namespace Process

/-- `p` with the values below depth `base` replaced by `vs`. -/
def replaceBelow (base : Nat) (vs : Array Value) (p : Process) : Process :=
  { p with values := vs ++ p.values.extract base p.values.size }

variable {base : Nat} {vs : Array Value}

/-! The replaced stack, against changes of the stack above `base`. -/

theorem replacedAt (xs : Array Value) (hv : vs.size = base) {i : Nat} (hi : base ≤ i) :
    (vs ++ xs.extract base xs.size)[i]? = xs[i]? := by
  rw [Array.getElem?_append_right (by omega), Array.getElem?_extract, hv]
  split
  · congr 1
    omega
  · rw [Array.getElem?_eq_none (by omega)]

theorem replacedSize (xs : Array Value) (hv : vs.size = base) (h : base ≤ xs.size) :
    (vs ++ xs.extract base xs.size).size = xs.size := by
  simp only [Array.size_append, Array.size_extract, hv]
  omega

theorem replacedPush (xs : Array Value) (v : Value) (h : base ≤ xs.size) :
    vs ++ (xs.push v).extract base (xs.push v).size = (vs ++ xs.extract base xs.size).push v := by
  simp [Array.extract_push, h, show ¬xs.size + 1 ≤ xs.size by omega]

theorem replacedPop (xs : Array Value) (h : base < xs.size) :
    vs ++ xs.pop.extract base xs.pop.size = (vs ++ xs.extract base xs.size).pop := by
  rw [Array.pop_append_of_ne_empty (by simp; omega)]
  apply congrArg
  apply Array.ext_getElem?
  intro i
  simp only [Array.getElem?_pop, Array.getElem?_extract, Array.size_extract, Array.size_pop,
    Nat.min_self]
  by_cases hi : i < xs.size - 1 - base
  · rw [if_pos hi, if_pos (by omega), if_pos (by omega), if_pos (by omega)]
  · rw [if_neg hi, if_neg (by omega)]

theorem replacedTake (xs : Array Value) (hv : vs.size = base) {k : Nat} (h : base ≤ k) :
    vs ++ (xs.take k).extract base (xs.take k).size = (vs ++ xs.extract base xs.size).take k := by
  simp [← hv]
  rw [show vs.size + (k - vs.size) = k by omega, Array.extract_eq_self_of_le (by omega)]

theorem replacedBack (xs : Array Value) (hv : vs.size = base) (h : base < xs.size) :
    (vs ++ xs.extract base xs.size).back? = xs.back? := by
  rw [Array.back?_eq_getElem?, Array.back?_eq_getElem?, replacedSize xs hv (by omega),
    replacedAt xs hv (by omega)]

/-! The process operations, against the replacement. -/

variable {p : Process}

theorem replaceSize (hv : vs.size = base) (hs : base ≤ p.values.size) :
    (p.replaceBelow base vs).values.size = p.values.size :=
  replacedSize p.values hv hs

theorem replaceFloor : (p.replaceBelow base vs).valueFloor = p.valueFloor := rfl

@[simp] theorem replaceFrames : (p.replaceBelow base vs).frames = p.frames := rfl

@[simp] theorem replaceLimits : (p.replaceBelow base vs).limits = p.limits := rfl

@[simp] theorem replaceContexts : (p.replaceBelow base vs).contexts = p.contexts := rfl

@[simp] theorem replaceHandlers : (p.replaceBelow base vs).handlers = p.handlers := rfl

theorem replaceTake (hv : vs.size = base) {k : Nat} (h : base ≤ k) :
    { p with values := p.values.take k }.replaceBelow base vs =
      { p.replaceBelow base vs with values := (p.replaceBelow base vs).values.take k } := by
  simp only [replaceBelow, replacedTake p.values hv h]

theorem pushValueReplace (hv : vs.size = base) (hs : base ≤ p.values.size) (v : Value) :
    (p.replaceBelow base vs).pushValue v = (p.pushValue v).map (replaceBelow base vs) := by
  unfold pushValue
  rw [replaceSize hv hs, replaceLimits]
  by_cases full : p.values.size ≥ p.limits.maxValues
  · rw [if_pos full, if_pos full]
    rfl
  · rw [if_neg full, if_neg full]
    simp only [Except.map, replaceBelow, replacedPush p.values v hs]

theorem popValueReplace (hv : vs.size = base) (hs : base ≤ p.values.size)
    (hb : base ≤ p.valueFloor) :
    (p.replaceBelow base vs).popValue =
      p.popValue.map fun r => (r.1.replaceBelow base vs, r.2) := by
  unfold popValue
  rw [replaceFloor, replaceSize hv hs]
  by_cases low : p.values.size ≤ p.valueFloor
  · rw [if_pos low, if_pos low]
    rfl
  · rw [if_neg low, if_neg low]
    simp only [replaceBelow, replacedBack p.values hv (by omega)]
    split
    · simp only [Except.map, @replacedPop base vs p.values (by omega)]
    · rfl

theorem peekValueReplace (hv : vs.size = base) (hs : base ≤ p.values.size)
    (hb : base ≤ p.valueFloor) : (p.replaceBelow base vs).peekValue = p.peekValue := by
  unfold peekValue
  rw [replaceFloor, replaceSize hv hs]
  by_cases low : p.values.size ≤ p.valueFloor
  · rw [if_pos low, if_pos low]
  · rw [if_neg low, if_neg low]
    simp only [replaceBelow, replacedBack p.values hv (by omega)]

theorem modifyTopReplace (g : Frame → Frame) :
    (p.replaceBelow base vs).modifyTop g = (p.modifyTop g).replaceBelow base vs := by
  unfold modifyTop
  rw [replaceFrames]
  cases p.frames.back? <;> rfl

theorem pushFrameReplace (hv : vs.size = base) (hs : base ≤ p.values.size) (code : CodeId)
    (n serial : Nat) (w : Bool) :
    (p.replaceBelow base vs).pushFrame code n serial w =
      (p.pushFrame code n serial w).map (replaceBelow base vs) := by
  unfold pushFrame
  rw [replaceFrames, replaceLimits]
  by_cases full : p.frames.size ≥ p.limits.maxFrames
  · rw [if_pos full, if_pos full]
    rfl
  · rw [if_neg full, if_neg full]
    simp only [Except.map, replaceSize hv hs]
    rfl

theorem popHandlerReplace :
    (p.replaceBelow base vs).popHandler =
      p.popHandler.map fun r => (r.1.replaceBelow base vs, r.2) := by
  unfold popHandler
  rw [replaceFrames, replaceHandlers]
  by_cases above : p.handlers.size > (p.frames.back?.map (·.handlerSp)).getD 0
  · rw [if_pos above, if_pos above]
    cases p.handlers.back? <;> rfl
  · rw [if_neg above, if_neg above]
    rfl

theorem pushHandlerReplace (hv : vs.size = base) (hs : base ≤ p.values.size) (pc : Nat) :
    (p.replaceBelow base vs).pushHandler pc = (p.pushHandler pc).replaceBelow base vs := by
  simp only [pushHandler, replaceSize hv hs]
  rfl

theorem replaceAt (hv : vs.size = base) {i : Nat} (hi : base ≤ i) :
    (p.replaceBelow base vs).values[i]? = p.values[i]? :=
  replacedAt p.values hv hi

theorem replaceExtract (hv : vs.size = base) (hs : base ≤ p.values.size) {k : Nat}
    (hk : base ≤ k) :
    (p.replaceBelow base vs).values.extract k p.values.size = p.values.extract k p.values.size := by
  apply Array.ext_getElem?
  intro i
  rw [Array.getElem?_extract, Array.getElem?_extract, replaceSize hv hs, replaceAt hv (by omega)]

theorem markContextTosReplace :
    (p.replaceBelow base vs).markContextTos =
      (p.markContextTos.1.replaceBelow base vs, p.markContextTos.2) := by
  simp only [markContextTos, replaceContexts, modifyTopReplace]
  rfl

/-! The base stays below the innermost frame's base. -/

theorem valueFloorRetop {g : Frame → Frame} (keeps : ∀ f : Frame, f.Retains (g f)) :
    (p.modifyTop g).valueFloor = p.valueFloor := by
  unfold valueFloor
  rw [modifyTopBack]
  cases p.frames.back? with
  | none => rfl
  | some f =>
    have := (keeps f).depths
    simp only [Frame.depths, Prod.mk.injEq] at this
    simp [this.2.1]

theorem valueFloorMark (p : Process) : p.markContextTos.1.valueFloor = p.valueFloor := by
  simp only [markContextTos, valueFloor, modifyTopBack]
  cases p.frames.back? <;> rfl

theorem valueFloorSetLocals {k : Nat} {f : Frame} (hf : p.frames[k]? = some f)
    (ls : Array Value) :
    { p with frames := p.frames.set! k { f with locals := ls } }.valueFloor = p.valueFloor := by
  simp only [valueFloor, Array.back?_eq_getElem?, Array.set!_eq_setIfInBounds,
    Array.size_setIfInBounds, Array.getElem?_setIfInBounds]
  split
  · rename_i same
    rw [if_pos (Array.getElem?_eq_some_iff.mp hf).1, ← same, hf]
    rfl
  · rfl

theorem Step.baseBelow {q : Process} (step : p.Step q) (floor : base ≤ p.valueFloor)
    (size : base ≤ p.values.size) : base ≤ q.valueFloor ∧ base ≤ q.values.size := by
  cases step with
  | push v room => exact ⟨floor, by simp; omega⟩
  | pop above => exact ⟨floor, by simp; omega⟩
  | drop n above => exact ⟨floor, by simp; omega⟩
  | retop g keeps => exact ⟨(valueFloorRetop keeps).symm ▸ floor, by simpa using size⟩
  | enter c =>
    exact ⟨(valueFloorMark _).symm ▸ floor, by simpa [markContextTos, pushContext] using size⟩
  | leave f top above =>
    exact ⟨(valueFloorMark _).symm ▸ floor, by simpa [markContextTos, popContext] using size⟩
  | pushFrame code n serial w pushed =>
    obtain ⟨-, rfl⟩ := pushFrameOk pushed
    exact ⟨by simp [valueFloor]; omega, size⟩
  | pushHandler pc framed => exact ⟨floor, size⟩
  | popHandler popped =>
    obtain ⟨-, -, rfl⟩ := popHandlerSome popped
    exact ⟨floor, size⟩

end Process

namespace Machine

/-- Changes the first process of id `pid` in a list, as `modifyProc` does. -/
def modifyFirst (pid : Nat) (f : Process → Process) : List Process → List Process
  | [] => []
  | p :: ps => if p.id = pid then f p :: ps else p :: modifyFirst pid f ps

variable {pid : Nat} {f g : Process → Process}

theorem modifyFirstIdx : ∀ (l : List Process) {i : Nat},
    l.findIdx? (fun p => p.id == pid) = some i → l.modify i f = modifyFirst pid f l
  | [], _, h => by simp at h
  | a :: l, i, h => by
    rw [List.findIdx?_cons] at h
    by_cases ha : a.id = pid
    · simp only [ha, beq_self_eq_true, if_true, Option.some.injEq] at h
      subst h
      simp [modifyFirst, ha, List.modify_zero_cons]
    · simp only [show (a.id == pid) = false by simpa using ha, Bool.false_eq_true, if_false] at h
      obtain ⟨j, hj, rfl⟩ := Option.map_eq_some_iff.mp h
      rw [List.modify_succ_cons, modifyFirstIdx l hj]
      simp [modifyFirst, ha]

theorem modifyFirstNone : ∀ l : List Process,
    l.findIdx? (fun p => p.id == pid) = none → modifyFirst pid f l = l
  | [], _ => rfl
  | a :: l, h => by
    rw [List.findIdx?_cons] at h
    by_cases ha : a.id = pid
    · simp [ha] at h
    · simp only [show (a.id == pid) = false by simpa using ha, Bool.false_eq_true, if_false,
        Option.map_eq_none_iff] at h
      simp [modifyFirst, ha, modifyFirstNone l h]

theorem modifyProcFirst (m : Machine) (pid : Nat) (f : Process → Process) :
    m.modifyProc pid f = { m with procs := (modifyFirst pid f m.procs.toList).toArray } := by
  rcases m with ⟨codes, contexts, contextLive, hostContexts, locks, holds, ⟨l⟩⟩
  simp only [modifyProc, procIndex?, List.findIdx?_toArray]
  split
  · rename_i i hi
    simp only [List.modify_toArray, modifyFirstIdx l hi]
  · rename_i hnone
    simp only [modifyFirstNone l hnone]

theorem modifyFirstTwice (keeps : ∀ a : Process, a.id = pid → (g a).id = pid) :
    ∀ l : List Process, modifyFirst pid f (modifyFirst pid g l) = modifyFirst pid (fun a => f (g a)) l
  | [] => rfl
  | a :: l => by
    by_cases ha : a.id = pid
    · simp [modifyFirst, ha, keeps a ha]
    · simp [modifyFirst, ha, modifyFirstTwice keeps l]

theorem modifyFirstComm {q : Nat} (ne : pid ≠ q) (kf : ∀ a : Process, a.id = pid → (f a).id = pid)
    (kg : ∀ a : Process, a.id = q → (g a).id = q) :
    ∀ l : List Process, modifyFirst pid f (modifyFirst q g l) = modifyFirst q g (modifyFirst pid f l)
  | [] => rfl
  | a :: l => by
    by_cases hp : a.id = pid
    · have hq : a.id ≠ q := fun h => ne (hp.symm.trans h)
      have : (f a).id ≠ q := by rw [kf a hp]; exact ne
      simp [modifyFirst, hp, this, ne]
    · by_cases hq : a.id = q
      · have : (g a).id ≠ pid := by rw [kg a hq]; exact Ne.symm ne
        simp [modifyFirst, hq, this, Ne.symm ne]
      · simp [modifyFirst, hp, hq, modifyFirstComm ne kf kg l]

/-- The engine with the values below depth `base` of process `pid` replaced by `vs`. -/
def replaceBelow (pid base : Nat) (vs : Array Value) (m : Machine) : Machine :=
  m.modifyProc pid (Process.replaceBelow base vs)

variable {base : Nat} {vs : Array Value} {m m' : Machine}

theorem procReplace (q : Nat) :
    (m.replaceBelow pid base vs).proc? q =
      if q = pid then (m.proc? pid).map (Process.replaceBelow base vs) else m.proc? q :=
  procModifyProc m pid q _ fun _ h => h

theorem procReplaceFound {p : Process} (found : m.proc? pid = some p) :
    (m.replaceBelow pid base vs).proc? pid = some (p.replaceBelow base vs) := by
  rw [procReplace, if_pos rfl, found]
  rfl

theorem replaceOther {m' : Machine} (same : m'.procs = m.procs) :
    m'.replaceBelow pid base vs = { m' with procs := (m.replaceBelow pid base vs).procs } := by
  simp only [replaceBelow, modifyProcFirst, same]

theorem replaceSetProc (q : Process) :
    (m.setProc q).replaceBelow pid base vs =
      (m.replaceBelow pid base vs).setProc (if q.id = pid then q.replaceBelow base vs else q) := by
  simp only [replaceBelow, setProc, modifyProcFirst]
  by_cases hq : q.id = pid
  · rw [if_pos hq]
    subst hq
    rw [modifyFirstTwice (fun _ _ => rfl), show (q.replaceBelow base vs).id = q.id from rfl,
      @modifyFirstTwice q.id (fun _ => q.replaceBelow base vs) (Process.replaceBelow base vs)
        (fun _ h => h)]
  · rw [if_neg hq, @modifyFirstComm pid (Process.replaceBelow base vs) (fun _ => q) q.id
      (Ne.symm hq) (fun _ h => h) (fun _ _ => rfl)]

/-- Process `pid`, if there is one, has its values and its innermost frame's base at least
`base` deep. -/
def BaseBelow (pid base : Nat) (m : Machine) : Prop :=
  ∀ p, m.proc? pid = some p → base ≤ p.valueFloor ∧ base ≤ p.values.size

theorem replaceEq (m : Machine) :
    m.replaceBelow pid base vs = { m with procs := (m.replaceBelow pid base vs).procs } :=
  replaceOther rfl

@[simp] theorem replaceCodes : (m.replaceBelow pid base vs).codes = m.codes := by
  rw [replaceEq]

@[simp] theorem replaceContexts : (m.replaceBelow pid base vs).contexts = m.contexts := by
  rw [replaceEq]

theorem codeOrEmptyReplace (c : CodeId) :
    (m.replaceBelow pid base vs).codeOrEmpty c = m.codeOrEmpty c := by
  simp only [codeOrEmpty, code?, replaceCodes]

theorem namesReplace : (m.replaceBelow pid base vs).names = m.names := by
  rw [replaceEq]
  rfl

theorem BaseBelow.change (h : Change pid m m') (below : BaseBelow pid base m) :
    BaseBelow pid base m' := by
  cases h with
  | proc found step =>
    intro q found'
    rw [procSetProc] at found'
    split at found'
    · rw [step.id, procIdOf found, found] at found'
      cases found'
      obtain ⟨floor, size⟩ := below _ found
      exact step.baseBelow floor size
    · exact below q found'
  | view v i x =>
    rcases setViewLocalEq m v i x with same | ⟨p, k, f, found, hf, eq⟩
    · rw [same]
      exact below
    · rw [eq]
      intro q found'
      rw [procSetProc] at found'
      split at found'
      · rename_i same
        have hp := procIdOf found
        have hid : pid = v.process := same.trans hp
        subst hid
        rw [procIdOf found, found] at found'
        cases found'
        obtain ⟨floor, size⟩ := below _ found
        exact ⟨(Process.valueFloorSetLocals hf _).symm ▸ floor, size⟩
      · exact below q found'
  | outside same =>
    intro q found'
    exact below q (by rwa [procOfProcs same] at found')

theorem BaseBelow.evolves (h : Evolves pid m m') (below : BaseBelow pid base m) :
    BaseBelow pid base m' := by
  induction h with
  | refl => exact below
  | tail _ step ih => exact ih.change step

/-! Changes of the engine outside the processes commute with the replacement. -/

theorem modifyCodeReplace (c : CodeId) (f : Code → Code) :
    (m.replaceBelow pid base vs).modifyCode c f = (m.modifyCode c f).replaceBelow pid base vs := by
  rw [replaceOther (show (m.modifyCode c f).procs = m.procs from rfl)]
  conv => lhs; rw [replaceEq m]
  rfl

theorem nextFrameReplace (n : Nat) :
    { m.replaceBelow pid base vs with nextFrame := n } =
      ({ m with nextFrame := n } : Machine).replaceBelow pid base vs := by
  rw [replaceOther (show ({ m with nextFrame := n } : Machine).procs = m.procs from rfl)]
  conv => lhs; rw [replaceEq m]

@[simp] theorem replaceNextFrame : (m.replaceBelow pid base vs).nextFrame = m.nextFrame := by
  rw [replaceEq]

theorem locksReplace (locks : LockTable) :
    { m.replaceBelow pid base vs with locks := locks } =
      ({ m with locks := locks } : Machine).replaceBelow pid base vs := by
  rw [replaceOther (show ({ m with locks := locks } : Machine).procs = m.procs from rfl)]
  conv => lhs; rw [replaceEq m]

theorem addHoldReplace (mutex : MutexId) :
    (m.replaceBelow pid base vs).addHold mutex =
      ((m.addHold mutex).1.replaceBelow pid base vs, (m.addHold mutex).2) := by
  rw [replaceOther (show (m.addHold mutex).1.procs = m.procs from rfl)]
  conv => lhs; rw [replaceEq m]
  rfl

theorem lockedReplace (locks : LockTable) (mutex : MutexId) :
    ({ m.replaceBelow pid base vs with locks := locks } : Machine).addHold mutex =
      (((({ m with locks := locks } : Machine).addHold mutex).1.replaceBelow pid base vs,
        (({ m with locks := locks } : Machine).addHold mutex).2)) := by
  rw [locksReplace, addHoldReplace]

@[simp] theorem replaceLocks : (m.replaceBelow pid base vs).locks = m.locks := by
  rw [replaceEq]

/-! What reads the engine reads alike. -/

theorem viewValidReplace (v : FrameView) :
    (m.replaceBelow pid base vs).viewValid v = m.viewValid v := by
  unfold viewValid
  rw [procReplace]
  by_cases same : v.process = pid
  · rw [if_pos same]
    subst same
    cases m.proc? v.process <;> rfl
  · rw [if_neg same]

theorem viewLocalsReplace (v : FrameView) :
    (m.replaceBelow pid base vs).viewLocals? v = m.viewLocals? v := by
  unfold viewLocals?
  rw [procReplace]
  by_cases same : v.process = pid
  · rw [if_pos same]
    subst same
    cases m.proc? v.process <;> rfl
  · rw [if_neg same]

theorem lookupInReplace : ∀ (fuel : Nat) (id : ContextId) (name : String),
    (m.replaceBelow pid base vs).lookupIn fuel id name = m.lookupIn fuel id name
  | 0, _, _ => rfl
  | fuel + 1, id, name => by
    simp only [lookupIn, context?, replaceContexts, viewValidReplace, viewLocalsReplace,
      lookupInReplace fuel]

theorem lookupReplace (p : Process) (name : String) :
    (m.replaceBelow pid base vs).lookup p name = m.lookup p name := by
  simp only [lookup, contextLookup, contextFuel, replaceContexts, lookupInReplace]

/-! What writes the engine writes alike. -/

theorem setContextReplace (id : ContextId) (ctx : Context) :
    (m.setContext id ctx).replaceBelow pid base vs =
      (m.replaceBelow pid base vs).setContext id ctx := by
  rw [replaceOther (show (m.setContext id ctx).procs = m.procs from rfl)]
  conv => rhs; rw [replaceEq m]
  rfl

theorem setViewLocalReplace (v : FrameView) (i : Nat) (x : Value) :
    (m.replaceBelow pid base vs).setViewLocal v i x =
      ((m.setViewLocal v i x).1.replaceBelow pid base vs, (m.setViewLocal v i x).2) := by
  unfold setViewLocal
  rw [procReplace]
  by_cases same : v.process = pid
  · rw [if_pos same]
    subst same
    cases found : m.proc? v.process with
    | none => rfl
    | some p =>
      simp only [Option.map_some, Process.replaceFrames]
      split
      · rfl
      · split
        · split
          · rw [replaceSetProc, if_pos (procIdOf found)]
            rfl
          · rfl
        · rfl
  · rw [if_neg same]
    cases found : m.proc? v.process with
    | none => rfl
    | some p =>
      simp only
      split
      · rfl
      · split
        · split
          · have hid := procIdOf found
            rw [replaceSetProc, if_neg (fun h => same (hid.symm.trans h))]
          · rfl
        · rfl

theorem firstAssignReplace {fuel : Nat} {name : String} {x : Value}
    (step : ∀ (m : Machine) (id : ContextId), (m.replaceBelow pid base vs).assignIn fuel id name x =
      (m.assignIn fuel id name x).map fun r => (r.1.replaceBelow pid base vs, r.2)) :
    ∀ (cs : List ContextId) (m : Machine),
      assignIn.firstAssign fuel (m.replaceBelow pid base vs) cs name x =
        (assignIn.firstAssign fuel m cs name x).map fun r => (r.1.replaceBelow pid base vs, r.2)
  | [], m => by
    rw [assignIn.firstAssign.eq_1, assignIn.firstAssign.eq_1]
    rfl
  | c :: cs, m => by
    rw [assignIn.firstAssign.eq_2, assignIn.firstAssign.eq_2, step m c]
    cases m.assignIn fuel c name x with
    | error e => rfl
    | ok r =>
      obtain ⟨m₁, done⟩ := r
      cases done
      · exact firstAssignReplace step cs m₁
      · rfl

theorem assignInReplace : ∀ (fuel : Nat) (m : Machine) (id : ContextId) (name : String)
    (x : Value), (m.replaceBelow pid base vs).assignIn fuel id name x =
      (m.assignIn fuel id name x).map fun r => (r.1.replaceBelow pid base vs, r.2)
  | 0, m, id, name, x => by
    rw [assignIn.eq_1, assignIn.eq_1]
    rfl
  | fuel + 1, m, id, name, x => by
    rw [assignIn.eq_2, assignIn.eq_2]
    simp only [context?, replaceContexts, viewValidReplace, viewLocalsReplace]
    split
    · split
      · rw [← setContextReplace]
        rfl
      · rfl
    · split
      · rfl
      · split
        · split
          · rfl
          · rw [setViewLocalReplace]
            rfl
        · exact firstAssignReplace (fun m id => assignInReplace fuel m id name x) _ m
    · rfl

theorem assignNameReplace (name : String) (x : Value) : ∀ (cs : List ContextId) (m : Machine),
    (m.replaceBelow pid base vs).assignName cs name x =
      (m.assignName cs name x).map fun r => (r.1.replaceBelow pid base vs, r.2)
  | [], m => rfl
  | c :: cs, m => by
    simp only [assignName, contextAssign, contextFuel, replaceContexts, assignInReplace]
    cases m.assignIn (m.contexts.size + 1) c name x with
    | error e => rfl
    | ok r =>
      obtain ⟨m₁, done⟩ := r
      cases done
      · exact assignNameReplace name x cs m₁
      · rfl

end Machine

namespace Exec

open Machine

variable {pid base : Nat} {vs : Array Value} {α β : Type}

/-- Running `x` ignores the values of process `pid` below `base`: from the engine with those
values replaced by as many others it gives the same answer, and the state it gives from the
engine itself with the same replacement. -/
def Ignores (pid base : Nat) (vs : Array Value) {α : Type} (x : Exec α) : Prop :=
  vs.size = base → ∀ m, Live pid m → BaseBelow pid base m →
    x.run (m.replaceBelow pid base vs) = Prod.map id (replaceBelow pid base vs) (x.run m)

theorem ignoresPure (a : α) : Ignores pid base vs (pure a : Exec α) := fun _ _ _ _ => rfl

theorem ignoresThrow (e : Fault) : Ignores pid base vs (throw e : Exec α) := fun _ _ _ _ => rfl

theorem ignoresThrowBind (e : Fault) (f : α → Exec β) : Ignores pid base vs (throw e >>= f) :=
  fun _ _ _ _ => rfl

theorem ignoresLiftFault (r : Except Fault α) : Ignores pid base vs (liftFault r) := by
  intro _ _ _ _
  cases r <;> rfl

theorem ignoresBind {x : Exec α} {f : α → Exec β} (first : Ignores pid base vs x)
    (keeps : Keeps pid x) (next : ∀ a, Ignores pid base vs (f a)) :
    Ignores pid base vs (x >>= f) := by
  intro hv m live below
  have moved := postState.mp (keeps m live)
  rw [runBind, runBind, first hv m live below]
  rcases h : x.run m with ⟨_ | a, m₁⟩
  · rfl
  · rw [h] at moved
    exact next a hv m₁ (moved.live live) (below.evolves moved)

theorem ignoresIte {c : Prop} [Decidable c] {x y : Exec β} (hx : Ignores pid base vs x)
    (hy : Ignores pid base vs y) : Ignores pid base vs (if c then x else y) := by
  split
  · exact hx
  · exact hy

theorem ignoresGuard {c : Prop} [Decidable c] {e : Fault} {k : Unit → Exec β}
    (rest : Ignores pid base vs (k ())) :
    Ignores pid base vs (if c then throw e >>= k else k ()) :=
  ignoresIte (ignoresBind (ignoresThrow e) (keepsThrow e) fun _ => rest) rest

theorem discardBind (x : Exec α) : discard x = x >>= fun _ => pure () := by
  rw [discard, map_const, Function.comp_apply, map_eq_pure_bind]

theorem ignoresDiscard {x : Exec α} (hx : Ignores pid base vs x) (keeps : Keeps pid x) :
    Ignores pid base vs (discard x) := by
  rw [discardBind]
  exact ignoresBind hx keeps fun _ => ignoresPure _

theorem runProcFound {m : Machine} {p : Process} (found : m.proc? pid = some p) :
    (proc pid).run m = (.ok p, m) := by
  unfold proc
  rw [runBind, show (get : Exec Machine).run m = (.ok m, m) from rfl]
  simp only [found]
  rfl

theorem ignoresBindProc {f : Process → Exec β}
    (next : ∀ m p, vs.size = base → Live pid m → BaseBelow pid base m → m.proc? pid = some p →
      (f (p.replaceBelow base vs)).run (m.replaceBelow pid base vs) =
        Prod.map id (replaceBelow pid base vs) ((f p).run m)) :
    Ignores pid base vs (proc pid >>= f) := by
  intro hv m live below
  obtain ⟨p, found, framed⟩ := live
  rw [runBind, runBind, runProcFound (procReplaceFound found), runProcFound found]
  exact next m p hv ⟨p, found, framed⟩ below found

theorem ignoresBindGet {f : Machine → Exec β}
    (next : ∀ m, vs.size = base → Live pid m → BaseBelow pid base m →
      (f (m.replaceBelow pid base vs)).run (m.replaceBelow pid base vs) =
        Prod.map id (replaceBelow pid base vs) ((f m).run m)) :
    Ignores pid base vs (get >>= f) := fun hv m live below => next m hv live below

/-! The primitives. -/

theorem setProcReplace {m : Machine} {p q : Process} (found : m.proc? pid = some p)
    (same : q.id = p.id) :
    (m.replaceBelow pid base vs).setProc (q.replaceBelow base vs) =
      (m.setProc q).replaceBelow pid base vs := by
  rw [replaceSetProc, if_pos (same.trans (procIdOf found))]

theorem ignoresPush (v : Value) : Ignores pid base vs (push pid v) := by
  unfold push
  refine ignoresBindProc fun m p hv live below found => ?_
  obtain ⟨-, size⟩ := below p found
  rw [runBind, runBind, Process.pushValueReplace hv size]
  cases h : p.pushValue v with
  | error e => rfl
  | ok q =>
    exact Prod.ext rfl (setProcReplace found (Process.pushValueStep h).id)

theorem ignoresPop : Ignores pid base vs (pop pid) := by
  unfold pop
  refine ignoresBindProc fun m p hv live below found => ?_
  obtain ⟨floor, size⟩ := below p found
  rw [runBind, runBind, Process.popValueReplace hv size floor]
  cases h : p.popValue with
  | error e => rfl
  | ok r =>
    obtain ⟨q, v⟩ := r
    exact Prod.ext rfl (setProcReplace found (Process.popValueStep h).id)

theorem ignoresPeek : Ignores pid base vs (peek pid) := by
  unfold peek
  refine ignoresBindProc fun m p hv live below found => ?_
  obtain ⟨floor, size⟩ := below p found
  rw [Process.peekValueReplace hv size floor]
  cases p.peekValue <;> rfl

theorem ignoresTopFrame : Ignores pid base vs (topFrame pid) := by
  unfold topFrame
  refine ignoresBindProc fun m p hv live below found => ?_
  rw [Process.replaceFrames]
  cases p.frames.back? <;> rfl

theorem ignoresModifyTop (g : Frame → Frame) : Ignores pid base vs (modifyTop pid g) := by
  unfold modifyTop
  refine ignoresBindProc fun m p hv live below found => ?_
  rw [Process.modifyTopReplace]
  exact Prod.ext rfl (setProcReplace found (Process.modifyTopId p g))

theorem ignoresStoreLocal (i : Nat) (v : Value) : Ignores pid base vs (storeLocal pid i v) := by
  unfold storeLocal
  refine ignoresBind ignoresTopFrame (keepsTopFrame pid) fun f => ?_
  exact ignoresIte (ignoresModifyTop _) (ignoresThrow _)

theorem runLiftOk (a : α) (m : Machine) : (liftFault (.ok a) : Exec α).run m = (.ok a, m) :=
  rfl

theorem runGet (m : Machine) : (get : Exec Machine).run m = (.ok m, m) := rfl

theorem runSet (m m' : Machine) : (set m' : Exec PUnit).run m = (.ok ⟨⟩, m') := rfl

theorem runPushFrame {code : CodeId} {w : Bool} {m : Machine} {p : Process}
    (found : m.proc? pid = some p) :
    (pushFrame pid code w).run m =
      if p.frames.size ≥ p.limits.maxFrames then (.error .stackOverflow, m) else
        let m₁ := if (m.codeOrEmpty code).needsRelocation then m.modifyCode code Code.relocate
          else m
        match p.pushFrame code (m₁.codeOrEmpty code).locals.size m₁.nextFrame w with
        | .ok q => (.ok (), { m₁ with nextFrame := m₁.nextFrame + 1 }.setProc q)
        | .error e => (.error e, { m₁ with nextFrame := m₁.nextFrame + 1 }) := by
  unfold pushFrame
  rw [runBind, runProcFound found]
  dsimp only
  split
  · rfl
  · simp only [runBind, runGet]
    by_cases reloc : (m.codeOrEmpty code).needsRelocation = true
    · simp only [reloc, if_true, runBind, runGet, runSet]
      cases p.pushFrame code ((m.modifyCode code Code.relocate).codeOrEmpty code).locals.size
        (m.modifyCode code Code.relocate).nextFrame w <;> rfl
    · simp only [reloc, if_false, Bool.false_eq_true, runBind, runGet, runSet]
      cases p.pushFrame code (m.codeOrEmpty code).locals.size m.nextFrame w <;> rfl

theorem ignoresPushFrame (code : CodeId) (w : Bool) : Ignores pid base vs (pushFrame pid code w) := by
  intro hv m live below
  obtain ⟨p, found, -⟩ := live
  obtain ⟨-, size⟩ := below p found
  rw [runPushFrame (procReplaceFound found), runPushFrame found]
  simp only [Process.replaceFrames, Process.replaceLimits, codeOrEmptyReplace]
  split
  · rfl
  · -- relocating the unit and taking a serial leave the processes alone
    have relocated : (if (m.codeOrEmpty code).needsRelocation then
        (m.replaceBelow pid base vs).modifyCode code Code.relocate else m.replaceBelow pid base vs) =
        (if (m.codeOrEmpty code).needsRelocation then m.modifyCode code Code.relocate
          else m).replaceBelow pid base vs := by
      split
      · exact modifyCodeReplace _ _
      · rfl
    rw [relocated]
    generalize hm₁ : (if (m.codeOrEmpty code).needsRelocation then m.modifyCode code Code.relocate
      else m) = m₁
    have found₁ : m₁.proc? pid = some p := by
      rw [← hm₁]
      split
      · exact (procOfProcs rfl pid).trans found
      · exact found
    rw [codeOrEmptyReplace, replaceNextFrame, Process.pushFrameReplace hv size]
    cases h : p.pushFrame code (m₁.codeOrEmpty code).locals.size m₁.nextFrame w with
    | error e => exact Prod.ext rfl (nextFrameReplace _)
    | ok q =>
      have found₂ : ({ m₁ with nextFrame := m₁.nextFrame + 1 } : Machine).proc? pid = some p :=
        (procOfProcs rfl pid).trans found₁
      refine Prod.ext rfl ?_
      show ({ m₁.replaceBelow pid base vs with nextFrame := m₁.nextFrame + 1 } : Machine).setProc
        (q.replaceBelow base vs) = _
      rw [nextFrameReplace, setProcReplace found₂ (Process.Step.id (.pushFrame _ _ _ _ h))]
      rfl

theorem setProcThenReplace {m : Machine} {p q : Process} {rest : Exec β} (hv : vs.size = base)
    (live : Live pid m) (below : BaseBelow pid base m) (found : m.proc? pid = some p)
    (step : p.Step q) (next : Ignores pid base vs rest) :
    (setProc (q.replaceBelow base vs) >>= fun _ => rest).run (m.replaceBelow pid base vs) =
      Prod.map id (replaceBelow pid base vs) ((setProc q >>= fun _ => rest).run m) := by
  rw [runBind, runBind]
  show rest.run ((m.replaceBelow pid base vs).setProc (q.replaceBelow base vs)) = _
  rw [setProcReplace found step.id]
  exact next hv _ ((Change.proc found step).live live) (below.change (.proc found step))

theorem ignoresJump (c : Code) (j : Jump) : Ignores pid base vs (jump pid c j) := by
  unfold jump
  refine ignoresGuard (ignoresGuard (ignoresIte ?_ ?_))
  · refine ignoresBindProc fun m p hv live below found => ?_
    obtain ⟨-, size⟩ := below p found
    rw [Process.pushHandlerReplace hv size]
    exact Prod.ext rfl (setProcReplace found rfl)
  · -- the condition reads the top value only; then an optional pop and the frame moves on
    have rest : ∀ taken : Bool, Ignores pid base vs (if j.pop = true then
        discard (pop pid) >>= fun _ =>
          if taken = true then modifyTop pid (fun f => { f with pc := j.target }) else pure ()
        else if taken = true then modifyTop pid (fun f => { f with pc := j.target })
          else pure ()) := fun taken =>
      ignoresIte (ignoresBind (ignoresDiscard ignoresPop keepsPop) (keepsDiscard keepsPop)
          fun _ => ignoresIte (ignoresModifyTop _) (ignoresPure _))
        (ignoresIte (ignoresModifyTop _) (ignoresPure _))
    dsimp only
    split
    · exact ignoresBind ignoresPeek (keepsPeek pid) fun _ =>
        ignoresBind (ignoresPure _) (keepsPure _) fun taken => rest taken
    · exact ignoresBind ignoresPeek (keepsPeek pid) fun _ =>
        ignoresBind (ignoresPure _) (keepsPure _) fun taken => rest taken
    · exact ignoresBind ignoresPeek (keepsPeek pid) fun _ =>
        ignoresBind (ignoresPure _) (keepsPure _) fun taken => rest taken
    · exact ignoresBind (ignoresPure _) (keepsPure _) fun taken => rest taken

theorem ignoresCall (args : Nat) (w : Bool) : Ignores pid base vs (call pid args w) := by
  unfold call
  refine ignoresBind ignoresPop keepsPop fun callee => ?_
  split
  · refine ignoresBind (ignoresPure _) (keepsPure _) fun id => ignoresBindGet fun m hv live below => ?_
    simp only [codeOrEmptyReplace]
    refine ignoresGuard (ignoresGuard (ignoresBindProc fun m p hv live below found => ?_)) hv m
      live below
    obtain ⟨floor, size⟩ := below p found
    rw [Process.replaceSize hv size, Process.replaceFloor]
    split
    · rfl
    · rename_i enough
      -- the arguments lie above the base; the caller keeps what lies below them
      rw [Process.replaceExtract hv size (by omega), ← Process.replaceTake hv (by omega)]
      exact setProcThenReplace hv live below found (.drop args (by omega))
        (ignoresBind (ignoresPushFrame _ _) (keepsPushFrame _ _) fun _ => ignoresModifyTop _)
  · exact ignoresThrowBind _ _

theorem ignoresBindTopFrame {f : Frame → Exec β}
    (next : ∀ m p fr, vs.size = base → Live pid m → BaseBelow pid base m →
      m.proc? pid = some p → p.frames.back? = some fr →
      (f fr).run (m.replaceBelow pid base vs) = Prod.map id (replaceBelow pid base vs) ((f fr).run m)) :
    Ignores pid base vs (topFrame pid >>= f) := by
  intro hv m live below
  obtain ⟨p, found, framed⟩ := live
  obtain ⟨fr, top⟩ := Process.backSome framed
  have run : ∀ (m' : Machine) (q : Process), m'.proc? pid = some q → q.frames.back? = some fr →
      (topFrame pid).run m' = (.ok fr, m') := by
    intro m' q found' top'
    unfold topFrame
    rw [runBind, runProcFound found']
    simp only [top']
    rfl
  rw [runBind, runBind, run m p found top, run _ _ (procReplaceFound found) top]
  exact next m p fr hv ⟨p, found, framed⟩ below found top

theorem setEvolvedReplace {m m' : Machine} {rest : Exec β} (hv : vs.size = base)
    (live : Live pid m) (below : BaseBelow pid base m) (moved : Evolves pid m m')
    (next : Ignores pid base vs rest) :
    (set (m'.replaceBelow pid base vs) >>= fun _ => rest).run (m.replaceBelow pid base vs) =
      Prod.map id (replaceBelow pid base vs) ((set m' >>= fun _ => rest).run m) := by
  rw [runBind, runBind]
  exact next hv m' (moved.live live) (below.evolves moved)

theorem ignoresControl (k : Control) : Ignores pid base vs (control pid k) := by
  cases k with
  | uncatch =>
    refine ignoresBindProc fun m p hv live below found => ?_
    rw [Process.popHandlerReplace]
    cases h : p.popHandler with
    | none => rfl
    | some r =>
      obtain ⟨q, hd⟩ := r
      exact setProcThenReplace hv live below found (.popHandler h) (ignoresPure _)
  | throw =>
    refine ignoresBind ignoresPop keepsPop fun v => ignoresBindGet fun m hv live below => ?_
    rw [namesReplace]
    rfl
  | terminate | suspend | stop => exact ignoresPure _
  | enter =>
    refine ignoresBind ignoresPop keepsPop fun v => ?_
    split
    · refine ignoresBindProc fun m p hv live below found => ?_
      rw [show (p.replaceBelow base vs).pushContext _ = (p.pushContext _).replaceBelow base vs
        from rfl, Process.markContextTosReplace]
      exact setProcThenReplace hv live below found (.enter _) (ignoresPure _)
    · exact ignoresThrow _
  | leave =>
    refine ignoresBindTopFrame fun m p f hv live below found top => ?_
    rw [runBind, runBind, runProcFound (procReplaceFound found), runProcFound found]
    dsimp only
    rw [Process.replaceContexts]
    split
    · rfl
    · rename_i above
      rw [show (p.replaceBelow base vs).popContext.1 = p.popContext.1.replaceBelow base vs
        from rfl, Process.markContextTosReplace]
      exact setProcThenReplace hv live below found (.leave f top (by omega)) (ignoresPure _)
  | lock =>
    refine ignoresBind ignoresPop keepsPop fun note => ignoresBind ignoresPop keepsPop fun name => ?_
    cases name with
    | str s =>
      refine ignoresBind (ignoresPure _) (keepsPure _) fun lockName =>
        ignoresBindGet fun m hv live below => ?_
      rw [namesReplace, replaceLocks, runBind, runBind]
      cases m.locks.create lockName (if note.isEmpty = true then "" else note.display m.names)
        (some pid) with
      | error e => rfl
      | ok r =>
        obtain ⟨locks, mutex⟩ := r
        rw [runLiftOk, runLiftOk]
        dsimp only
        rw [lockedReplace]
        exact setEvolvedReplace hv live below (Evolves.change (.outside rfl))
          (ignoresBind (ignoresPush _) (keepsPush _) fun _ => ignoresPure _)
    | _ => exact ignoresThrowBind _ _

theorem lookupProcReplace (m : Machine) (p : Process) (name : String) :
    m.lookup (p.replaceBelow base vs) name = m.lookup p name := rfl

theorem ignoresPushThen (v : Value) :
    Ignores pid base vs (push pid v >>= fun _ => pure Outcome.continue) :=
  ignoresBind (ignoresPush v) (keepsPush v) fun _ => ignoresPure _

theorem ignoresInstr (c : Code) : ∀ op, Ignores pid base vs (instr pid c op)
  | .nop | .label _ => ignoresPure _
  | .pushLiteral i => by
    dsimp only [instr]
    split
    · exact ignoresPushThen _
    · exact ignoresThrow _
  | .pushLocal i => by
    refine ignoresBind ignoresTopFrame (keepsTopFrame pid) fun f => ?_
    split
    · exact ignoresPushThen _
    · exact ignoresThrow _
  | .storeLocal i => ignoresBind ignoresPeek (keepsPeek pid) fun v =>
    ignoresBind (ignoresStoreLocal i v) (keepsStoreLocal i v) fun _ => ignoresPure _
  | .popLocal i => ignoresBind ignoresPop keepsPop fun v =>
    ignoresBind (ignoresStoreLocal i v) (keepsStoreLocal i v) fun _ => ignoresPure _
  | .pushName i => by
    dsimp only [instr]
    split
    · refine ignoresBind (ignoresPure _) (keepsPure _) fun name =>
        ignoresBindGet fun m hv live below => ?_
      -- the lookup reads the engine's contexts and the process's context stack only
      simp only [lookupReplace]
      refine ignoresBindProc (fun m' p hv live below found => ?_) hv m live below
      rw [lookupProcReplace]
      cases m.lookup p name with
      | none => rfl
      | some v => exact ignoresPushThen v hv m' live below
    · exact ignoresThrowBind _ _
  | .storeName i => by
    dsimp only [instr]
    split
    · refine ignoresBind (ignoresPure _) (keepsPure _) fun name =>
        ignoresBind ignoresPeek (keepsPeek pid) fun v =>
        ignoresBindProc fun m p hv live below found => ?_
      rw [Process.replaceContexts, runBind, runBind, runGet, runGet]
      dsimp only
      rw [assignNameReplace, runBind, runBind]
      cases h : m.assignName p.contexts.reverse.toList name v with
      | error e => rfl
      | ok r =>
        obtain ⟨m₁, done⟩ := r
        dsimp only [Except.map]
        rw [runLiftOk, runLiftOk]
        dsimp only
        exact setEvolvedReplace hv live below (assignNameEvolves pid _ _ _ _ _ _ h)
          (ignoresIte (ignoresPure _) (ignoresThrow _))
    · exact ignoresThrowBind _ _
  | .binary op => ignoresBind ignoresPop keepsPop fun b => ignoresBind ignoresPop keepsPop fun a =>
    ignoresBindGet fun m hv live below => by
      rw [namesReplace]
      exact (ignoresBind (ignoresLiftFault _) (keepsLiftFault _) fun r =>
        ignoresBind (ignoresPush r) (keepsPush r) fun _ => ignoresPure _) hv m live below
  | .unary op => ignoresBind ignoresPop keepsPop fun a =>
    ignoresBind (ignoresLiftFault _) (keepsLiftFault _) fun r =>
      ignoresBind (ignoresPush r) (keepsPush r) fun _ => ignoresPure _
  | .drop n => ignoresBindProc fun m p hv live below found => by
    obtain ⟨floor, size⟩ := below p found
    rw [Process.replaceSize hv size, Process.replaceFloor]
    split
    · rfl
    · rw [← Process.replaceTake hv (by omega)]
      exact setProcThenReplace hv live below found (.drop n (by omega)) (ignoresPure _)
  | .dup d => ignoresBindProc fun m p hv live below found => by
    obtain ⟨floor, size⟩ := below p found
    rw [Process.replaceSize hv size, Process.replaceFloor]
    dsimp only
    split
    · rfl
    · rename_i fits
      simp only [Bool.or_eq_true, decide_eq_true_eq, not_or, Nat.not_lt] at fits
      -- the copied value lies at or above the floor, so above the base
      rw [Process.replaceAt hv (by omega)]
      cases p.values[p.values.size - (d + 1)]? with
      | none => rfl
      | some v => exact ignoresPushThen v hv m live below
  | .jump j => ignoresBind (ignoresJump c j) (keepsJump c j) fun _ => ignoresPure _
  | .call args w => ignoresBind (ignoresCall args w) (keepsCall args w) fun _ => ignoresPure _
  | .ret 0 => ignoresPure _
  | .ret 1 => ignoresBind ignoresPop keepsPop fun _ => ignoresPure _
  | .ret (n + 2) => ignoresThrow _
  | .control k => ignoresControl k

end Exec

namespace Machine

open Exec

variable {pid base : Nat} {vs : Array Value}

theorem stepReplace (m : Machine) (hv : vs.size = base) (below : BaseBelow pid base m) :
    (m.replaceBelow pid base vs).step pid =
      ((m.step pid).1.replaceBelow pid base vs, (m.step pid).2) := by
  cases found : m.proc? pid with
  | none =>
    have gone : (m.replaceBelow pid base vs).proc? pid = none := by
      rw [procReplace, if_pos rfl, found]
      rfl
    simp only [step, found, gone]
  | some p =>
    rcases top : p.frames.back? with _ | f
    · simp only [step, found, procReplaceFound found, Process.replaceFrames, top]
    rcases hop : (m.codeOrEmpty f.code).instr? f.pc with _ | op
    · simp only [step, found, procReplaceFound found, Process.replaceFrames, top,
        codeOrEmptyReplace, hop]
    have framed : p.frames ≠ #[] := by
      rintro h
      simp [h] at top
    have change : Change pid m (m.setProc (p.modifyTop fun f => { f with pc := f.pc + 1 })) :=
      .proc found (.retop _ fun _ => rfl)
    simp only [step, found, procReplaceFound found, Process.replaceFrames, top,
      codeOrEmptyReplace, hop, Process.modifyTopReplace,
      setProcReplace found (Process.modifyTopId p _),
      ignoresInstr _ op hv _ ((Evolves.change change).live ⟨p, found, framed⟩) (below.change change)]
    rcases (instr pid (m.codeOrEmpty f.code) op).run
      (m.setProc (p.modifyTop fun f => { f with pc := f.pc + 1 })) with ⟨r, m'⟩
    rfl

end Machine

end ScriptEngine
