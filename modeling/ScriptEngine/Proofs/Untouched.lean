import ScriptEngine.Proofs.SchedulerView
/-!
What an instruction leaves alone. An instruction writes the engine in a few ways only: it
replaces the process it runs, relocates the unit a call enters and takes a frame serial,
makes a lock with its held reference, and writes a context or a local through a view. A view
of the engine that each of these leaves as it was is therefore left as it was by every
instruction, whatever it answers.
-/
namespace ScriptEngine

namespace Machine

/-- The writes an instruction can make all leave `view` as it was. -/
structure Untouched {β : Type} (view : Machine → β) : Prop where
  modifyProc : ∀ m pid f, view (m.modifyProc pid f) = view m
  relocate : ∀ m code, view (m.modifyCode code Code.relocate) = view m
  serial : ∀ m n, view { m with nextFrame := n } = view m
  lock : ∀ m locks mutex, view ({ m with locks := locks }.addHold mutex).1 = view m
  context : ∀ m id c, view (m.setContext id c) = view m

variable {β : Type} {view : Machine → β}

theorem Untouched.setProc (keeps : Untouched view) (m : Machine) (p : Process) :
    view (m.setProc p) = view m :=
  keeps.modifyProc m p.id _

theorem Untouched.setViewLocal (keeps : Untouched view) (m : Machine) (v : FrameView) (i : Nat)
    (x : Value) : view (m.setViewLocal v i x).1 = view m := by
  rcases setViewLocalEq m v i x with same | ⟨p, k, f, -, -, eq⟩
  · rw [same]
  · rw [eq, keeps.setProc]

theorem Untouched.assignName (keeps : Untouched view) {cs : List ContextId} {name : String}
    {x : Value} {m m' : Machine} {b : Bool} (h : m.assignName cs name x = .ok (m', b)) :
    view m' = view m :=
  assignNameReaches (fun m m' => view m' = view m) (fun _ => rfl) (fun h₁ h₂ => h₂.trans h₁) x
    (fun m id _ _ _ _ _ => keeps.context m id _) (fun m v i => keeps.setViewLocal m v i x) cs m name m' b h

end Machine

namespace Exec

open Machine

/-- Running `x` leaves `view` of the engine as it was, whatever `x` answers. -/
def Leaves {β α : Type} (view : Machine → β) (x : Exec α) : Prop :=
  ∀ m, Post x m (fun _ m' => view m' = view m) (fun _ m' => view m' = view m)

variable {β α γ : Type} {view : Machine → β}

theorem leavesPure (a : α) : Leaves view (pure a : Exec α) := fun _ => rfl

theorem leavesThrow (e : Fault) : Leaves view (throw e : Exec α) := fun _ => rfl

theorem leavesThrowBind (e : Fault) (f : α → Exec γ) : Leaves view (throw e >>= f) := fun _ => rfl

theorem leavesGet : Leaves view (get : Exec Machine) := fun _ => rfl

theorem leavesBind {x : Exec α} {f : α → Exec γ} (first : Leaves view x)
    (next : ∀ a, Leaves view (f a)) : Leaves view (x >>= f) := by
  intro m
  rw [postBind]
  exact (first m).mono
    (fun a _ h => (next a _).mono (fun _ _ h' => h'.trans h) (fun _ _ h' => h'.trans h))
    (fun _ _ h => h)

theorem leavesBindGet {f : Machine → Exec γ}
    (next : ∀ m, Post (f m) m (fun _ m' => view m' = view m) (fun _ m' => view m' = view m)) :
    Leaves view (get >>= f) := fun m => by
  rw [postBind, postGet]
  exact next m

theorem Leaves.after {x : Exec α} (leaves : Leaves view x) {m m' : Machine} (same : view m' = view m) :
    Post x m' (fun _ m'' => view m'' = view m) (fun _ m'' => view m'' = view m) :=
  (leaves m').mono (fun _ _ h => h.trans same) (fun _ _ h => h.trans same)

theorem leavesOfRead {x : Exec α} (reads : ∀ m, Post x m (fun _ m' => m' = m) (fun _ m' => m' = m)) :
    Leaves view x :=
  fun m => (reads m).mono (fun _ _ h => h ▸ rfl) (fun _ _ h => h ▸ rfl)

theorem leavesLiftFault (r : Except Fault α) : Leaves view (liftFault r) :=
  leavesOfRead fun _ => by cases r <;> rfl

theorem leavesProc (q : Nat) : Leaves view (proc q) :=
  leavesOfRead fun m => by rw [postProc]; split <;> rfl

theorem leavesTopFrame (q : Nat) : Leaves view (topFrame q) :=
  leavesOfRead fun m => by rw [postTopFrame]; split <;> (try split) <;> rfl

theorem leavesPeek (q : Nat) : Leaves view (peek q) := leavesBind (leavesProc q) fun _ => leavesLiftFault _

theorem leavesIte {c : Prop} [Decidable c] {x y : Exec γ} (hx : Leaves view x) (hy : Leaves view y) :
    Leaves view (if c then x else y) := by
  split
  · exact hx
  · exact hy

theorem leavesDiscard {x : Exec α} (hx : Leaves view x) : Leaves view (discard x) :=
  fun m => (postDiscard x).2 (hx m)

theorem leavesGuard {c : Prop} [Decidable c] {e : Fault} {k : Unit → Exec γ} (rest : Leaves view (k ())) :
    Leaves view (if c then throw e >>= k else k ()) :=
  leavesIte (leavesThrowBind e k) rest

section Writes

variable (keeps : Untouched view)
include keeps

theorem leavesSetProc (p : Process) : Leaves view (setProc p) :=
  fun m => (postSetProc p).2 (keeps.setProc m p)

theorem leavesPush (q : Nat) (v : Value) : Leaves view (push q v) :=
  leavesBind (leavesProc q) fun _ => leavesBind (leavesLiftFault _) (leavesSetProc keeps)

theorem leavesPop (q : Nat) : Leaves view (pop q) :=
  leavesBind (leavesProc q) fun _ => leavesBind (leavesLiftFault _) fun _ =>
    leavesBind (leavesSetProc keeps _) fun _ => leavesPure _

theorem leavesModifyTop (q : Nat) (g : Frame → Frame) : Leaves view (modifyTop q g) :=
  leavesBind (leavesProc q) fun _ => leavesSetProc keeps _

theorem leavesStoreLocal (q i : Nat) (v : Value) : Leaves view (storeLocal q i v) :=
  leavesBind (leavesTopFrame q) fun _ => leavesIte (leavesModifyTop keeps q _) (leavesThrow _)

theorem leavesPushFrame (q : Nat) (code : CodeId) (w : Bool) : Leaves view (pushFrame q code w) := by
  refine leavesBind (leavesProc q) fun p => leavesGuard (leavesBindGet fun m => ?_)
  simp only [postBind, postIte, postSet, postGet]
  split
  · rw [← postBind]
    exact (leavesBind (leavesLiftFault _) (leavesSetProc keeps)).after
      ((keeps.serial _ _).trans (keeps.relocate m code))
  · rw [← postBind]
    exact (leavesBind (leavesLiftFault _) (leavesSetProc keeps)).after (keeps.serial _ _)

theorem leavesJump (q : Nat) (c : Code) (j : Jump) : Leaves view (jump q c j) := by
  unfold jump
  refine leavesGuard (leavesGuard (leavesIte (leavesBind (leavesProc q) fun _ => leavesSetProc keeps _) ?_))
  have rest : ∀ taken : Bool, Leaves view (if j.pop = true then
      discard (pop q) >>= fun _ =>
        if taken = true then modifyTop q (fun f => { f with pc := j.target }) else pure ()
      else if taken = true then modifyTop q (fun f => { f with pc := j.target })
        else pure ()) := fun taken =>
    leavesIte (leavesBind (leavesDiscard (leavesPop keeps q)) fun _ =>
        leavesIte (leavesModifyTop keeps q _) (leavesPure _))
      (leavesIte (leavesModifyTop keeps q _) (leavesPure _))
  dsimp only
  split <;> first
    | exact leavesBind (leavesPeek q) fun _ => leavesBind (leavesPure _) rest
    | exact leavesBind (leavesPure _) rest

theorem leavesCall (q args : Nat) (w : Bool) : Leaves view (call q args w) := by
  unfold call
  refine leavesBind (leavesPop keeps q) fun callee => ?_
  split
  · exact leavesBind (leavesPure _) fun _ => leavesBind leavesGet fun _ =>
      leavesGuard (leavesGuard (leavesBind (leavesProc q) fun _ => leavesGuard
        (leavesBind (leavesSetProc keeps _) fun _ => leavesBind (leavesPushFrame keeps q _ w) fun _ =>
          leavesModifyTop keeps q _)))
  · exact leavesThrowBind _ _

theorem leavesControl (q : Nat) (k : Control) : Leaves view (control q k) := by
  cases k with
  | uncatch =>
    refine leavesBind (leavesProc q) fun p => ?_
    split
    · exact leavesBind (leavesSetProc keeps _) fun _ => leavesPure _
    · exact leavesThrow _
  | throw => exact leavesBind (leavesPop keeps q) fun _ => leavesBind leavesGet fun _ => leavesThrow _
  | terminate | suspend | stop => exact leavesPure _
  | enter =>
    refine leavesBind (leavesPop keeps q) fun v => ?_
    split
    · exact leavesBind (leavesProc q) fun _ => leavesBind (leavesSetProc keeps _) fun _ => leavesPure _
    · exact leavesThrow _
  | leave =>
    exact leavesBind (leavesTopFrame q) fun _ => leavesBind (leavesProc q) fun _ =>
      leavesGuard (leavesBind (leavesSetProc keeps _) fun _ => leavesPure _)
  | lock =>
    refine leavesBind (leavesPop keeps q) fun note => leavesBind (leavesPop keeps q) fun name => ?_
    cases name with
    | str s =>
      -- the new lock and its held reference are one of the writes `view` ignores
      refine leavesBind (leavesPure _) fun _ => leavesBindGet fun m => ?_
      rw [postBind, postLiftFault]
      split
      · rw [postBind, postSet]
        exact (leavesBind (leavesPush keeps q _) fun _ => leavesPure _).after (keeps.lock _ _ _)
      · rfl
    | _ => exact leavesThrowBind _ _

theorem leavesInstr (q : Nat) (c : Code) : ∀ op, Leaves view (instr q c op)
  | .nop | .label _ => leavesPure _
  | .pushLiteral i => by
    dsimp only [instr]
    split
    · exact leavesBind (leavesPush keeps q _) fun _ => leavesPure _
    · exact leavesThrow _
  | .pushLocal i => by
    refine leavesBind (leavesTopFrame q) fun f => ?_
    split
    · exact leavesBind (leavesPush keeps q _) fun _ => leavesPure _
    · exact leavesThrow _
  | .storeLocal i =>
    leavesBind (leavesPeek q) fun v => leavesBind (leavesStoreLocal keeps q i v) fun _ => leavesPure _
  | .popLocal i =>
    leavesBind (leavesPop keeps q) fun v => leavesBind (leavesStoreLocal keeps q i v) fun _ => leavesPure _
  | .pushName i => by
    dsimp only [instr]
    split
    · refine leavesBind (leavesPure _) fun _ => leavesBind leavesGet fun _ =>
        leavesBind (leavesProc q) fun _ => ?_
      split
      · exact leavesBind (leavesPush keeps q _) fun _ => leavesPure _
      · exact leavesThrow _
    · exact leavesThrowBind _ _
  | .storeName i => by
    dsimp only [instr]
    split
    · refine leavesBind (leavesPure _) fun _ => leavesBind (leavesPeek q) fun _ =>
        leavesBind (leavesProc q) fun _ => leavesBindGet fun m => ?_
      rw [postBind, postLiftFault]
      split
      · rename_i r assigned
        have kept := keeps.assignName assigned
        simp only [postBind, postSet, postIte, postPure, postThrow]
        split <;> exact kept
      · rfl
    · exact leavesThrowBind _ _
  | .binary op =>
    leavesBind (leavesPop keeps q) fun _ => leavesBind (leavesPop keeps q) fun _ =>
      leavesBind leavesGet fun _ => leavesBind (leavesLiftFault _) fun r =>
        leavesBind (leavesPush keeps q r) fun _ => leavesPure _
  | .unary op =>
    leavesBind (leavesPop keeps q) fun _ => leavesBind (leavesLiftFault _) fun r =>
      leavesBind (leavesPush keeps q r) fun _ => leavesPure _
  | .drop n =>
    leavesBind (leavesProc q) fun _ => leavesGuard (leavesBind (leavesSetProc keeps _) fun _ => leavesPure _)
  | .dup d => by
    refine leavesBind (leavesProc q) fun _ => leavesGuard ?_
    split
    · exact leavesBind (leavesPush keeps q _) fun _ => leavesPure _
    · exact leavesThrow _
  | .jump j => leavesBind (leavesJump keeps q c j) fun _ => leavesPure _
  | .call args w => leavesBind (leavesCall keeps q args w) fun _ => leavesPure _
  | .ret 0 => leavesPure _
  | .ret 1 => leavesBind (leavesPop keeps q) fun _ => leavesPure _
  | .ret (n + 2) => leavesThrow _
  | .control k => leavesControl keeps q k

end Writes

end Exec

namespace Machine

open Exec

variable {β : Type} {view : Machine → β}

theorem Untouched.step (keeps : Untouched view) (m : Machine) (pid : Nat) :
    view (m.step pid).1 = view m := by
  unfold Machine.step
  dsimp only
  split
  · rfl
  · rename_i p found
    split
    · rfl
    · rename_i f top
      split
      · rfl
      · rename_i op _
        have := (leavesInstr keeps pid (m.codeOrEmpty f.code) op).after
          (keeps.setProc m (p.modifyTop fun f => { f with pc := f.pc + 1 }))
        rwa [postState] at this

/-! The rest of a run loop writes processes too: ending one, failing it, handing it a fault
or leaving a frame. -/

theorem Untouched.finish (keeps : Untouched view) (m : Machine) (pid : Nat) (status : Status) :
    view (m.finish pid status) = view m := by
  unfold Machine.finish
  split
  · rfl
  · exact keeps.setProc _ _

theorem Untouched.failWith (keeps : Untouched view) (m : Machine) (pid : Nat) (message : String) :
    view (m.failWith pid message) = view m := by
  unfold Machine.failWith
  split
  · rfl
  · dsimp only
    rw [keeps.finish, keeps.setProc]

theorem Untouched.raise (keeps : Untouched view) {m m' : Machine} {pid : Nat} {fault : Fault}
    {caught : Bool} (raised : m.raise pid fault = (m', caught)) : view m' = view m := by
  unfold Machine.raise at raised
  split at raised
  · cases raised
    rfl
  · split at raised <;> cases raised
    · exact keeps.setProc _ _
    · rw [keeps.failWith, keeps.setProc]

theorem Untouched.leaveFrame (keeps : Untouched view) (m : Machine) (pid : Nat) (value : Option Value) :
    view (m.leaveFrame pid value) = view m := by
  unfold Machine.leaveFrame
  split
  · split
    · exact keeps.setProc _ _
    · rfl
  · rfl

theorem Untouched.keptByRun (keeps : Untouched view) (pid : Nat) (settled : ∀ m, view m.settle = view m)
    (observed : ∀ m, view (m.observe pid) = view m)
    (budgeted : ∀ m n, view ({ m with budget := n } : Machine) = view m)
    (stopped : ∀ m, view ({ m with budget := 0, exhausted := true } : Machine) = view m) (v : β) :
    KeptByRun (fun m => view m = v) pid where
  observed m fuel same := by rw [budgeted, observed, same]
  stepped {m} _ _ same step := by
    have kept := keeps.step m pid
    rw [step] at kept
    exact kept.trans same
  settled m same := (settled m).trans same
  left m value same := (keeps.leaveFrame m pid value).trans same
  raised same raised := (keeps.raise raised).trans same
  finished m status same := (keeps.finish m pid status).trans same
  paused m status same := (keeps.modifyProc m pid _).trans same
  exhausted m same := (stopped m).trans same

end Machine

end ScriptEngine
