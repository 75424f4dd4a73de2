import ScriptEngine.Proofs.Noninterference
import ScriptEngine.Proofs.RunOutcome
/-!
What a run shows the scheduler. The scheduler files a process by its id, group and priority
and reads its status; besides the process table it keeps a ledger of the events it emitted
and the next process and group numbers. An instruction changes no process's standing and
never writes the ledger. A run of process `pid` therefore keeps every process where it was,
with its id, group and priority, changes the status of `pid` alone, and leaves the ledger as
it found it.
-/
namespace ScriptEngine

namespace Process

/-- Where the scheduler files a process. -/
def place (p : Process) : Nat × Nat × Int := (p.id, p.group, p.priority)

def standing (p : Process) : (Nat × Nat × Int) × Status := (p.place, p.status)

/-- What stays of a process while process `pid` runs: its place, and its status unless it
is `pid` itself. -/
def seenBy (pid : Nat) (p : Process) : (Nat × Nat × Int) × Option Status :=
  (p.place, if p.id = pid then none else some p.status)

theorem seenByOfStanding {p q : Process} (pid : Nat) (same : q.standing = p.standing) :
    q.seenBy pid = p.seenBy pid := by
  simp only [standing, place, Prod.mk.injEq] at same
  obtain ⟨⟨id, group, priority⟩, status⟩ := same
  simp [seenBy, place, id, group, priority, status]

theorem seenByOwn {p q : Process} {pid : Nat} (own : p.id = pid) (same : q.place = p.place) :
    q.seenBy pid = p.seenBy pid := by
  have : q.id = p.id := congrArg Prod.fst same
  simp [seenBy, same, this, own]

@[simp] theorem modifyTopStanding (p : Process) (g : Frame → Frame) :
    (p.modifyTop g).standing = p.standing := by
  unfold modifyTop
  split <;> rfl

theorem Step.standing {p q : Process} (step : p.Step q) : q.standing = p.standing := by
  cases step with
  | push | pop | drop | pushHandler => rfl
  | retop g keeps => exact modifyTopStanding p g
  | enter c => exact modifyTopStanding (p.pushContext c) _
  | leave f top above => exact modifyTopStanding p.popContext.1 _
  | pushFrame code n serial w pushed => rw [(pushFrameOk pushed).2]; rfl
  | popHandler popped => rw [(popHandlerSome popped).2.2]; rfl

theorem unwindGoStanding (fault : Fault) : ∀ (fuel : Nat) (p : Process),
    (unwind.go fault fuel p).1.standing = p.standing
  | 0, _ => rfl
  | fuel + 1, p => by
    unfold unwind.go
    split
    · rfl
    · dsimp only
      split
      · exact unwindGoStanding fault fuel _
      · split <;> rfl

theorem unwindStanding (p : Process) (fault : Fault) : (p.unwind fault).1.standing = p.standing :=
  unwindGoStanding fault _ p

theorem returnFromFrameStanding {p q : Process} {value : Option Value}
    (h : p.returnFromFrame value = some q) : q.standing = p.standing := by
  obtain ⟨_, _, _, _, rfl, _⟩ := returnFromFrameSome h
  rfl

end Process

namespace Machine

open Process

/-- What only the scheduler writes: the events it emitted and the next process and group
numbers it hands out. -/
def ledger (m : Machine) : Array Event × Nat × Nat := (m.events, m.nextPid, m.nextGroup)

/-- The process table as process `pid`'s run leaves it to the scheduler. -/
def seen (m : Machine) (pid : Nat) : List ((Nat × Nat × Int) × Option Status) :=
  m.procs.toList.map (seenBy pid)

@[simp] theorem ledgerModifyProc (m : Machine) (q : Nat) (f : Process → Process) :
    (m.modifyProc q f).ledger = m.ledger := by
  unfold modifyProc
  split <;> rfl

@[simp] theorem ledgerSetProc (m : Machine) (p : Process) : (m.setProc p).ledger = m.ledger :=
  ledgerModifyProc m p.id _

@[simp] theorem ledgerSettle (m : Machine) : m.settle.ledger = m.ledger := by
  unfold settle
  split <;> rfl

@[simp] theorem ledgerObserve (m : Machine) (pid : Nat) : (m.observe pid).ledger = m.ledger := by
  unfold observe
  split
  · split <;> rfl
  · rfl

@[simp] theorem ledgerFinish (m : Machine) (pid : Nat) (status : Status) :
    (m.finish pid status).ledger = m.ledger := by
  unfold finish
  split <;> simp

@[simp] theorem ledgerFailWith (m : Machine) (pid : Nat) (message : String) :
    (m.failWith pid message).ledger = m.ledger := by
  unfold failWith
  split <;> simp

@[simp] theorem ledgerRaise (m : Machine) (pid : Nat) (fault : Fault) :
    (m.raise pid fault).1.ledger = m.ledger := by
  unfold raise
  split
  · rfl
  · split <;> simp

@[simp] theorem ledgerLeaveFrame (m : Machine) (pid : Nat) (value : Option Value) :
    (m.leaveFrame pid value).ledger = m.ledger := by
  unfold leaveFrame
  split
  · split <;> simp
  · rfl

@[simp] theorem ledgerSetViewLocal (m : Machine) (v : FrameView) (i : Nat) (x : Value) :
    (m.setViewLocal v i x).1.ledger = m.ledger := by
  rcases setViewLocalEq m v i x with same | ⟨p, k, f, -, -, eq⟩
  · rw [same]
  · rw [eq, ledgerSetProc]

variable {m : Machine}

theorem mapModifyFirst {β : Type} (h : Process → β) (q : Nat) (f : Process → Process) :
    ∀ l : List Process, (∀ p, l.find? (fun p => p.id == q) = some p → h (f p) = h p) →
      (modifyFirst q f l).map h = l.map h
  | [], _ => rfl
  | a :: l, keeps => by
    by_cases ha : a.id = q
    · simp [modifyFirst, ha, keeps a (by simp [ha])]
    · have rest := mapModifyFirst h q f l fun p found => keeps p (by simp [ha, found])
      simp [modifyFirst, ha, rest]

theorem seenModifyProc (m : Machine) (q : Nat) (f : Process → Process) {pid : Nat}
    (keeps : ∀ p, m.proc? q = some p → (f p).seenBy pid = p.seenBy pid) :
    (m.modifyProc q f).seen pid = m.seen pid := by
  rw [modifyProcFirst]
  exact mapModifyFirst (seenBy pid) q f m.procs.toList fun p found =>
    keeps p (by simpa [proc?] using found)

theorem seenSetFound {pid : Nat} {p q : Process} (found : m.proc? pid = some p)
    (same : q.place = p.place) : (m.setProc q).seen pid = m.seen pid := by
  have own := procIdOf found
  have hid : q.id = pid := (congrArg Prod.fst same).trans own
  refine seenModifyProc m q.id _ fun p' found' => ?_
  rw [hid, found, Option.some.injEq] at found'
  subst found'
  exact seenByOwn own same

theorem seenSetStanding {q r : Process} (found : m.proc? r.id = some r)
    (same : q.standing = r.standing) (pid : Nat) : (m.setProc q).seen pid = m.seen pid := by
  refine seenModifyProc m q.id _ fun p' found' => ?_
  rw [show q.id = r.id from congrArg (·.1.1) same, found, Option.some.injEq] at found'
  subst found'
  exact seenByOfStanding pid same

theorem seenSetViewLocal (m : Machine) (v : FrameView) (i : Nat) (x : Value) (pid : Nat) :
    (m.setViewLocal v i x).1.seen pid = m.seen pid := by
  rcases setViewLocalEq m v i x with same | ⟨p, k, f, found, -, eq⟩
  · rw [same]
  · have own : m.proc? p.id = some p := (procIdOf found).symm ▸ found
    rw [eq]
    refine seenSetStanding own ?_ pid
    rfl

theorem seenOfProcs {m m' : Machine} (same : m'.procs = m.procs) (pid : Nat) :
    m'.seen pid = m.seen pid := by
  simp [seen, same]

theorem Change.seen {pid : Nat} {m m' : Machine} (h : Change pid m m') (q : Nat) :
    m'.seen q = m.seen q := by
  cases h with
  | proc found step =>
    exact seenSetStanding ((procIdOf found).symm ▸ found) step.standing q
  | view v i x => exact seenSetViewLocal m v i x q
  | outside same => exact seenOfProcs same q

theorem Evolves.seen {pid : Nat} {m m' : Machine} (h : Evolves pid m m') (q : Nat) :
    m'.seen q = m.seen q := by
  induction h with
  | refl => rfl
  | tail _ step ih => exact (step.seen q).trans ih

theorem firstAssignReaches (R : Machine → Machine → Prop) (refl : ∀ m, R m m)
    (trans : ∀ {a b c}, R a b → R b c → R a c) {fuel : Nat} {x : Value}
    (step : ∀ m id name m' b, m.assignIn fuel id name x = .ok (m', b) → R m m') :
    ∀ (cs : List ContextId) m name m' b,
      assignIn.firstAssign fuel m cs name x = .ok (m', b) → R m m'
  | [], m, name, m', b, h => by
    rw [assignIn.firstAssign.eq_1] at h
    cases h
    exact refl m
  | c :: cs, m, name, m', b, h => by
    rw [assignIn.firstAssign.eq_2] at h
    cases hc : m.assignIn fuel c name x with
    | error e => simp [hc, bind, Except.bind] at h
    | ok r =>
      obtain ⟨m₁, done⟩ := r
      have first := step _ _ _ _ _ hc
      simp only [hc, bind, Except.bind] at h
      split at h
      · cases h
        exact first
      · exact trans first (firstAssignReaches R refl trans step cs m₁ name m' b h)

theorem assignInReaches (R : Machine → Machine → Prop) (refl : ∀ m, R m m)
    (trans : ∀ {a b c}, R a b → R b c → R a c) (x : Value)
    (context : ∀ m id b name b', m.context? id = some (.bindings b) → b.assign? name x = some b' →
      R m (m.setContext id (.bindings b')))
    (view : ∀ m v i, R m (m.setViewLocal v i x).1) :
    ∀ (fuel : Nat) m c name m' b, m.assignIn fuel c name x = .ok (m', b) → R m m'
  | 0, m, c, name, m', b, h => by
    rw [assignIn.eq_1] at h
    cases h
    exact refl m
  | fuel + 1, m, c, name, m', b, h => by
    rw [assignIn.eq_2] at h
    split at h
    · rename_i bs found
      split at h <;> cases h
      · rename_i b' assigned
        exact context _ _ _ _ _ found assigned
      · exact refl m
    · split at h
      · cases h
      · split at h
        · split at h
          · cases h
          · rw [show m' = (m.setViewLocal _ _ x).1 from (congrArg Prod.fst (Except.ok.inj h)).symm]
            exact view _ _ _
        · exact firstAssignReaches R refl trans (assignInReaches R refl trans x context view fuel)
            _ _ _ _ _ h
    · cases h
      exact refl m

theorem assignNameReaches (R : Machine → Machine → Prop) (refl : ∀ m, R m m)
    (trans : ∀ {a b c}, R a b → R b c → R a c) (x : Value)
    (context : ∀ m id b name b', m.context? id = some (.bindings b) → b.assign? name x = some b' →
      R m (m.setContext id (.bindings b')))
    (view : ∀ m v i, R m (m.setViewLocal v i x).1) :
    ∀ (cs : List ContextId) (m : Machine) name m' b,
      m.assignName cs name x = .ok (m', b) → R m m'
  | [], m, name, m', b, h => by
    simp only [assignName] at h
    cases h
    exact refl m
  | c :: cs, m, name, m', b, h => by
    simp only [assignName] at h
    cases hc : m.contextAssign c name x with
    | error e => simp [hc, bind, Except.bind] at h
    | ok r =>
      obtain ⟨m₁, done⟩ := r
      have first := assignInReaches R refl trans x context view _ _ _ _ _ _ hc
      simp only [hc, bind, Except.bind] at h
      split at h
      · cases h
        exact first
      · exact trans first (assignNameReaches R refl trans x context view cs m₁ name m' b h)

theorem assignNameLedger {cs : List ContextId} {name : String} {x : Value} {m' : Machine} {b : Bool}
    (h : m.assignName cs name x = .ok (m', b)) : m'.ledger = m.ledger :=
  assignNameReaches (fun m m' => m'.ledger = m.ledger) (fun _ => rfl) (fun h₁ h₂ => h₂.trans h₁) x
    (fun _ _ _ _ _ _ _ => rfl) (fun m v i => ledgerSetViewLocal m v i x) cs m name m' b h

end Machine

namespace Exec

open Machine

/-- Running `x` leaves the scheduler's ledger as it was, whatever `x` answers. -/
def Calm {α : Type} (x : Exec α) : Prop :=
  ∀ m, Post x m (fun _ m' => m'.ledger = m.ledger) (fun _ m' => m'.ledger = m.ledger)

variable {α β : Type}

theorem calmPure (a : α) : Calm (pure a : Exec α) := fun _ => rfl

theorem calmThrow (e : Fault) : Calm (throw e : Exec α) := fun _ => rfl

theorem calmThrowBind (e : Fault) (f : α → Exec β) : Calm (throw e >>= f) := fun _ => rfl

theorem calmGet : Calm (get : Exec Machine) := fun _ => rfl

theorem calmBind {x : Exec α} {f : α → Exec β} (first : Calm x) (next : ∀ a, Calm (f a)) :
    Calm (x >>= f) := by
  intro m
  rw [postBind]
  exact (first m).mono
    (fun a _ h => (next a _).mono (fun _ _ h' => h'.trans h) (fun _ _ h' => h'.trans h))
    (fun _ _ h => h)

theorem calmBindGet {f : Machine → Exec β}
    (next : ∀ m, Post (f m) m (fun _ m' => m'.ledger = m.ledger) (fun _ m' => m'.ledger = m.ledger)) :
    Calm (get >>= f) := fun m => by
  rw [postBind, postGet]
  exact next m

theorem Calm.after {x : Exec α} (calm : Calm x) {m m' : Machine} (same : m'.ledger = m.ledger) :
    Post x m' (fun _ m'' => m''.ledger = m.ledger) (fun _ m'' => m''.ledger = m.ledger) :=
  (calm m').mono (fun _ _ h => h.trans same) (fun _ _ h => h.trans same)

theorem calmOfRead {x : Exec α} (reads : ∀ m, Post x m (fun _ m' => m' = m) (fun _ m' => m' = m)) :
    Calm x :=
  fun m => (reads m).mono (fun _ _ h => h ▸ rfl) (fun _ _ h => h ▸ rfl)

theorem calmLiftFault (r : Except Fault α) : Calm (liftFault r) :=
  calmOfRead fun _ => by cases r <;> rfl

theorem calmProc (q : Nat) : Calm (proc q) :=
  calmOfRead fun m => by rw [postProc]; split <;> rfl

theorem calmTopFrame (q : Nat) : Calm (topFrame q) :=
  calmOfRead fun m => by rw [postTopFrame]; split <;> (try split) <;> rfl

theorem calmSetProc (p : Process) : Calm (setProc p) := fun m => (postSetProc p).2 (ledgerSetProc m p)

theorem calmIte {c : Prop} [Decidable c] {x y : Exec β} (hx : Calm x) (hy : Calm y) :
    Calm (if c then x else y) := by
  split
  · exact hx
  · exact hy

theorem calmDiscard {x : Exec α} (hx : Calm x) : Calm (discard x) := fun m => (postDiscard x).2 (hx m)

theorem calmPush (q : Nat) (v : Value) : Calm (push q v) :=
  calmBind (calmProc q) fun _ => calmBind (calmLiftFault _) calmSetProc

theorem calmPop (q : Nat) : Calm (pop q) :=
  calmBind (calmProc q) fun _ => calmBind (calmLiftFault _) fun _ =>
    calmBind (calmSetProc _) fun _ => calmPure _

theorem calmPeek (q : Nat) : Calm (peek q) := calmBind (calmProc q) fun _ => calmLiftFault _

theorem calmModifyTop (q : Nat) (g : Frame → Frame) : Calm (modifyTop q g) :=
  calmBind (calmProc q) fun _ => calmSetProc _

theorem calmStoreLocal (q i : Nat) (v : Value) : Calm (storeLocal q i v) :=
  calmBind (calmTopFrame q) fun _ => calmIte (calmModifyTop q _) (calmThrow _)

theorem calmGuard {c : Prop} [Decidable c] {e : Fault} {k : Unit → Exec β} (rest : Calm (k ())) :
    Calm (if c then throw e >>= k else k ()) :=
  calmIte (calmBind (calmThrow e) fun _ => rest) rest

theorem calmPushFrame (q : Nat) (code : CodeId) (w : Bool) : Calm (pushFrame q code w) := by
  refine calmBind (calmProc q) fun p => calmGuard (calmBindGet fun m => ?_)
  -- relocating the unit and taking a frame serial leave the ledger alone
  simp only [postBind, postIte, postSet, postGet]
  split <;> rw [← postBind] <;> exact (calmBind (calmLiftFault _) calmSetProc).after rfl

theorem calmJump (q : Nat) (c : Code) (j : Jump) : Calm (jump q c j) := by
  unfold jump
  refine calmGuard (calmGuard (calmIte (calmBind (calmProc q) fun _ => calmSetProc _) ?_))
  have rest : ∀ taken : Bool, Calm (if j.pop = true then
      discard (pop q) >>= fun _ =>
        if taken = true then modifyTop q (fun f => { f with pc := j.target }) else pure ()
      else if taken = true then modifyTop q (fun f => { f with pc := j.target })
        else pure ()) := fun taken =>
    calmIte (calmBind (calmDiscard (calmPop q)) fun _ => calmIte (calmModifyTop q _) (calmPure _))
      (calmIte (calmModifyTop q _) (calmPure _))
  dsimp only
  split <;> first
    | exact calmBind (calmPeek q) fun _ => calmBind (calmPure _) rest
    | exact calmBind (calmPure _) rest

theorem calmCall (q args : Nat) (w : Bool) : Calm (call q args w) := by
  unfold call
  refine calmBind (calmPop q) fun callee => ?_
  split
  · exact calmBind (calmPure _) fun _ => calmBind calmGet fun _ =>
      calmGuard (calmGuard (calmBind (calmProc q) fun _ => calmGuard
        (calmBind (calmSetProc _) fun _ => calmBind (calmPushFrame q _ w) fun _ =>
          calmModifyTop q _)))
  · exact calmThrowBind _ _

theorem calmControl (q : Nat) (k : Control) : Calm (control q k) := by
  cases k with
  | uncatch =>
    refine calmBind (calmProc q) fun p => ?_
    split
    · exact calmBind (calmSetProc _) fun _ => calmPure _
    · exact calmThrow _
  | throw => exact calmBind (calmPop q) fun _ => calmBind calmGet fun _ => calmThrow _
  | terminate | suspend | stop => exact calmPure _
  | enter =>
    refine calmBind (calmPop q) fun v => ?_
    split
    · exact calmBind (calmProc q) fun _ => calmBind (calmSetProc _) fun _ => calmPure _
    · exact calmThrow _
  | leave =>
    exact calmBind (calmTopFrame q) fun _ => calmBind (calmProc q) fun _ =>
      calmGuard (calmBind (calmSetProc _) fun _ => calmPure _)
  | lock =>
    refine calmBind (calmPop q) fun note => calmBind (calmPop q) fun name => ?_
    cases name with
    | str s =>
      -- the new lock and its held reference are not the ledger
      refine calmBind (calmPure _) fun _ => calmBindGet fun m => ?_
      rw [postBind, postLiftFault]
      split
      · simp only [addHold]
        rw [postBind, postSet]
        exact (calmBind (calmPush q _) fun _ => calmPure _).after rfl
      · rfl
    | _ => exact calmThrowBind _ _

theorem calmInstr (q : Nat) (c : Code) : ∀ op, Calm (instr q c op)
  | .nop | .label _ => calmPure _
  | .pushLiteral i => by
    dsimp only [instr]
    split
    · exact calmBind (calmPush q _) fun _ => calmPure _
    · exact calmThrow _
  | .pushLocal i => by
    refine calmBind (calmTopFrame q) fun f => ?_
    split
    · exact calmBind (calmPush q _) fun _ => calmPure _
    · exact calmThrow _
  | .storeLocal i =>
    calmBind (calmPeek q) fun v => calmBind (calmStoreLocal q i v) fun _ => calmPure _
  | .popLocal i => calmBind (calmPop q) fun v => calmBind (calmStoreLocal q i v) fun _ => calmPure _
  | .pushName i => by
    dsimp only [instr]
    split
    · refine calmBind (calmPure _) fun _ => calmBind calmGet fun _ =>
        calmBind (calmProc q) fun _ => ?_
      split
      · exact calmBind (calmPush q _) fun _ => calmPure _
      · exact calmThrow _
    · exact calmThrowBind _ _
  | .storeName i => by
    dsimp only [instr]
    split
    · refine calmBind (calmPure _) fun _ => calmBind (calmPeek q) fun _ =>
        calmBind (calmProc q) fun _ => calmBindGet fun m => ?_
      -- an assignment writes a context, or a local through a view
      rw [postBind, postLiftFault]
      split
      · rename_i r assigned
        have kept := assignNameLedger assigned
        simp only [postBind, postSet, postIte, postPure, postThrow]
        split <;> exact kept
      · rfl
    · exact calmThrowBind _ _
  | .binary op =>
    calmBind (calmPop q) fun _ => calmBind (calmPop q) fun _ => calmBind calmGet fun _ =>
      calmBind (calmLiftFault _) fun r => calmBind (calmPush q r) fun _ => calmPure _
  | .unary op =>
    calmBind (calmPop q) fun _ => calmBind (calmLiftFault _) fun r =>
      calmBind (calmPush q r) fun _ => calmPure _
  | .drop n =>
    calmBind (calmProc q) fun _ => calmGuard (calmBind (calmSetProc _) fun _ => calmPure _)
  | .dup d => by
    refine calmBind (calmProc q) fun _ => calmGuard ?_
    split
    · exact calmBind (calmPush q _) fun _ => calmPure _
    · exact calmThrow _
  | .jump j => calmBind (calmJump q c j) fun _ => calmPure _
  | .call args w => calmBind (calmCall q args w) fun _ => calmPure _
  | .ret 0 => calmPure _
  | .ret 1 => calmBind (calmPop q) fun _ => calmPure _
  | .ret (n + 2) => calmThrow _
  | .control k => calmControl q k

end Exec

namespace Machine

open Exec

theorem stepLedger (m : Machine) (pid : Nat) : (m.step pid).1.ledger = m.ledger := by
  unfold step
  dsimp only
  split
  · rfl
  · rename_i p found
    split
    · rfl
    · rename_i f top
      split
      · rfl
      · rename_i op _
        have := (calmInstr pid (m.codeOrEmpty f.code) op).after
          (ledgerSetProc m (p.modifyTop fun f => { f with pc := f.pc + 1 }))
        rwa [postState] at this

open Process

variable {pid : Nat} {m m₁ m₂ m₃ : Machine}

/-- What a run of process `pid` leaves to the scheduler: every process keeps its place,
every other process its status, and the ledger stays. -/
structure Aside (pid : Nat) (m m' : Machine) : Prop where
  seen : m'.seen pid = m.seen pid
  ledger : m'.ledger = m.ledger

theorem Aside.refl (m : Machine) : Aside pid m m := ⟨rfl, rfl⟩

theorem Aside.trans (h₁ : Aside pid m₁ m₂) (h₂ : Aside pid m₂ m₃) : Aside pid m₁ m₃ :=
  ⟨h₂.seen.trans h₁.seen, h₂.ledger.trans h₁.ledger⟩

theorem asideOfProcs {m' : Machine} (same : m'.procs = m.procs) (ledger : m'.ledger = m.ledger) :
    Aside pid m m' :=
  ⟨seenOfProcs same pid, ledger⟩

theorem asideSetFound {p q : Process} (found : m.proc? pid = some p) (same : q.place = p.place) :
    Aside pid m (m.setProc q) :=
  ⟨seenSetFound found same, ledgerSetProc m q⟩

theorem asideSettle (m : Machine) : Aside pid m m.settle :=
  asideOfProcs (settleProcs m) (ledgerSettle m)

theorem asideStepTo {m' : Machine} {r : Except Fault Outcome} (stepped : m.step pid = (m', r)) :
    Aside pid m m' := by
  have moved : Aside pid m (m.step pid).1 := ⟨(stepEvolves m pid).seen pid, stepLedger m pid⟩
  rwa [stepped] at moved

theorem asideFinish (status : Status) : Aside pid m (m.finish pid status) := by
  unfold finish
  split
  · exact .refl m
  · rename_i p found
    exact asideSetFound found rfl

theorem asideFailWith (message : String) : Aside pid m (m.failWith pid message) := by
  unfold failWith
  split
  · exact .refl m
  · rename_i p found
    refine (asideSetFound found ?_).trans (asideFinish .failed)
    rfl

theorem asideRaise (fault : Fault) : Aside pid m (m.raise pid fault).1 := by
  unfold raise
  split
  · exact .refl m
  · rename_i p found
    have same : (p.unwind fault).1.place = p.place := congrArg Prod.fst (unwindStanding p fault)
    split
    · rename_i r caught
      rw [caught] at same
      exact asideSetFound found same
    · rename_i r uncaught
      rw [uncaught] at same
      exact (asideSetFound found same).trans (asideFailWith _)

theorem asideRaiseTo {fault : Fault} {m' : Machine} {caught : Bool}
    (raised : m.raise pid fault = (m', caught)) : Aside pid m m' := by
  have moved : Aside pid m (m.raise pid fault).1 := asideRaise fault
  rwa [raised] at moved

theorem asideLeaveFrame (value : Option Value) : Aside pid m (m.leaveFrame pid value) := by
  unfold leaveFrame
  split
  · rename_i p found
    split
    · rename_i r left
      exact asideSetFound found (congrArg Prod.fst (returnFromFrameStanding left))
    · exact .refl m
  · exact .refl m

theorem asideSetStatus (status : Status) :
    Aside pid m (m.modifyProc pid fun p => { p with status := status }) :=
  ⟨seenModifyProc m pid _ fun _ found => seenByOwn (procIdOf found) rfl, ledgerModifyProc m pid _⟩

theorem Aside.keptByRun (m : Machine) (pid : Nat) : KeptByRun (Aside pid m) pid where
  -- before an instruction only the coverage and the allowance change
  observed m' _ h := h.trans (asideOfProcs (observeProcs m' pid) (ledgerObserve m' pid))
  stepped h step := h.trans (asideStepTo step)
  settled _ h := h.trans (asideSettle _)
  left _ value h := h.trans (asideLeaveFrame value)
  raised h raised := h.trans (asideRaiseTo raised)
  finished _ status h := h.trans (asideFinish status)
  paused _ status h := h.trans (asideSetStatus status)
  exhausted _ h := h.trans (asideOfProcs rfl rfl)

theorem asideExecute (m : Machine) (pid : Nat) (temporary : Bool) :
    Aside pid m (m.execute pid temporary) :=
  (Aside.keptByRun m pid).execute temporary (fun _ found _ => asideSetFound found rfl) (.refl m)

theorem executeBegins {temporary : Bool} {p : Process} (found : m.proc? pid = some p)
    (active : ¬(p.status = .frozen ∨ p.status.isTerminal)) :
    (∃ M r fuel, Runs pid m M ∧ M.proc? pid = some r ∧ p.Underway r ∧
      m.execute pid temporary = runLoop pid temporary fuel M) ∨
    (∃ fault M M', Runs pid m M ∧ (∃ r, M.proc? pid = some r ∧ r.result = p.result) ∧
      M.raise pid fault = (M', false) ∧ m.execute pid temporary = M'.settle) := by
  have started : ∀ {q : Process}, q.id = p.id → q.frames = p.frames → q.limits = p.limits →
      q.values = p.values → q.contexts = p.contexts → q.handlers = p.handlers →
      q.contextTos = p.contextTos → Runs pid m (m.setProc q) :=
    fun same frames limits values contexts handlers tos =>
      .single (Moves.setFound found same (.relabel frames limits values contexts handlers tos))
  have own := procIdOf found
  unfold Machine.execute
  rw [found]
  dsimp only
  rw [if_neg (by simpa using active)]
  split
  · split
    · rename_i M raised
      obtain ⟨r, caught, found'⟩ := raiseCaught (procSetFound found (by exact own)) raised
      have framed := unwindGoFramed _ _ _ _ caught
      refine .inl ⟨_, r, _, Relation.ReflTransGen.trans ?_ ((Runs.raiseTo raised).trans
        (Runs.settle _)), (procOfProcs (settleProcs M) pid).trans found',
        (underwayStart ?_ ?_ ?_ ?_).carry framed (unwindGoCarries _ _ _ _ framed caught), rfl⟩
      · exact started rfl rfl rfl rfl rfl rfl rfl
      all_goals rfl
    · rename_i M raised
      refine .inr ⟨_, _, M, ?_, ⟨_, procSetFound found ?_, ?_⟩, raised, rfl⟩
      · exact started rfl rfl rfl rfl rfl rfl rfl
      · exact own
      · rfl
  · refine .inl ⟨_, _, _, ?_, procSetFound found ?_, underwayStart ?_ ?_ ?_ ?_, rfl⟩
    · exact started rfl rfl rfl rfl rfl rfl rfl
    · exact own
    all_goals rfl

theorem executeHalts {temporary : Bool} {p : Process} (found : m.proc? pid = some p)
    (active : ¬(p.status = .frozen ∨ p.status.isTerminal))
    (within : (m.execute pid temporary).exhausted = false) :
    ∃ q, (m.execute pid temporary).proc? pid = some q ∧
      (q.status = .waiting ∨ q.status = .suspended ∨ q.status.isTerminal) := by
  rcases executeBegins found active with
    ⟨M, r, fuel, reach, found', u, ran⟩ | ⟨fault, M, M', reach, ⟨r, found', result⟩, raised, ran⟩
  · rw [ran] at within ⊢
    obtain ⟨q, atEnd, stops⟩ := runLoopStops fuel M reach found' u within
    exact ⟨q, atEnd, stops.halted⟩
  · rw [ran]
    obtain ⟨q, atEnd, stops⟩ : ∃ q, M'.settle.proc? pid = some q ∧ Stops pid temporary m p M'.settle q :=
      failStops reach found' result raised
    exact ⟨q, atEnd, stops.halted⟩

end Machine

end ScriptEngine
