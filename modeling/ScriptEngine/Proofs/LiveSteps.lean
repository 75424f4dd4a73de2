import ScriptEngine.Proofs.LiveValues
import ScriptEngine.Proofs.Calls
/-!
Instructions keep the engine's values live. `Exec.Lands m x A` says that running `x` from the
living state `m` leaves a living state that keeps the live values of `m` live and its tracked
locks tracked, answering as `A` says; `Exec.Lives P x A` says so from every living state where
`P` holds. Binds, guards and the primitives compose by the lemmas below, and every instruction
lives from a state where its unit's literals are live, a value it returns being live
(`Exec.livesInstr`). A Lock instruction makes a lock with one reference and a held reference to
it: the locks tracked before stay tracked, and so does the new one. `Machine.stepLives` puts
these together for one step of a process.
-/
namespace ScriptEngine

namespace Machine

open Process

variable {m m' : Machine} {v : Value} {id : MutexId}

theorem valueLiveGrow (holds : ∀ (i : Nat) (h : Hold), m.holds[i]? = some h → m'.holds[i]? = some h)
    (live : m'.contextLive = m.contextLive) : m.ValueLive v → m'.ValueLive v := by
  cases v with
  | context c => exact fun alive => by simpa [ValueLive, Living, live] using alive
  | lock h mu =>
    rintro ⟨hold, found, alive, mutex⟩
    exact ⟨hold, holds _ _ found, alive, mutex⟩
  | _ => exact fun t => t

theorem ProcLive.grow {p : Process} (alive : m.ProcLive p) (grows : m.Grows m') : m'.ProcLive p :=
  ⟨fun v mem => grows.values v (alive.1 v mem), fun d mem => grows.values (.context d) (alive.2 d mem)⟩

theorem besideRelocate (m : Machine) (code : CodeId) : Beside m (m.modifyCode code Code.relocate) := by
  refine ⟨fun c mem => ?_, rfl, rfl, rfl, rfl, rfl⟩
  rcases memModify mem with old | ⟨c₀, old, rfl⟩
  · exact ⟨c, old, rfl⟩
  · exact ⟨c₀, old, rfl⟩

theorem Lifetime.codeLiterals (life : m.Lifetime) (code : CodeId) :
    ∀ v ∈ (m.codeOrEmpty code).literals, m.ValueLive v := by
  intro v lit
  unfold codeOrEmpty at lit
  cases found : m.code? code with
  | none => simp [found, Code.empty] at lit
  | some c =>
    rw [found, Option.getD_some] at lit
    exact life.literal (Array.mem_of_getElem? found) lit

theorem ProcLive.enter {p : Process} {c : ContextId} (alive : m.ProcLive p) (living : m.Living c.index) :
    m.ProcLive (p.pushContext c).markContextTos.1 := by
  have entered : m.ProcLive (p.pushContext c) := by
    refine ⟨alive.1, fun d mem => ?_⟩
    rcases Array.mem_push.mp mem with old | rfl
    · exact alive.2 d old
    · exact living
  exact entered.draws (Process.drawsMarkContextTos _) fun _ (no : False) => no.elim

section Operators

variable {op : BinaryOp} {a b r : Value}

theorem arithmeticLive (computed : Operation.arithmetic op a b = .ok r) : m.ValueLive r := by
  unfold Operation.arithmetic at computed
  simp only [bind, Except.bind, pure, Except.pure, throw, throwThe, MonadExceptOf.throw] at computed
  repeat' split at computed
  all_goals cases computed <;> trivial

theorem binaryLive {names : Names} (computed : Operation.binary names op a b = .ok r) : m.ValueLive r := by
  unfold Operation.binary at computed
  simp only [bind, Except.bind, pure, Except.pure] at computed
  repeat' split at computed
  -- the last branch is arithmetic; every other answers a truth value, a text or the empty value
  all_goals first
    | exact arithmeticLive computed
    | (cases computed <;> trivial)

theorem unaryLive {op : UnaryOp} (computed : Operation.unary op a = .ok r) : m.ValueLive r := by
  unfold Operation.unary at computed
  simp only [pure, Except.pure, throw, throwThe, MonadExceptOf.throw] at computed
  repeat' split at computed
  all_goals cases computed <;> trivial

end Operators

section Lock

variable {name note : String} {owner : Option Nat} {locks : LockTable} {mutex : MutexId}

theorem Tracked.lock (tracked : m.Tracked id) (created : m.locks.create name note owner = .ok (locks, mutex)) :
    ({ m with locks := locks, holds := m.holds.push { mutex := mutex } } : Machine).Tracked id := by
  obtain ⟨r, r', s, reg, slot, free, rfl, rfl⟩ := LockTable.createOk created
  obtain ⟨counted, revived⟩ := tracked
  by_cases new : id.index = m.locks.mutexes.size
  · -- the new lock counts its one held reference; nothing counted it before
    have same : id = ⟨m.locks.mutexes.size⟩ := by
      rcases id with ⟨i⟩
      simp only at new
      rw [new]
    subst same
    have zero : liveHolds m.holds.toList ⟨m.locks.mutexes.size⟩ = 0 := by
      rw [← counted, LockTable.refsOf]
      simp [LockTable.get?]
    refine ⟨?_, fun mu found _ => ?_⟩
    · rw [LockTable.refsOf, LockTable.getPush, if_pos rfl, Array.toList_push, liveHoldsAppend, liveHoldsSingle,
        zero]
      simp
    · rw [LockTable.getPush, if_pos rfl, Option.some.injEq] at found
      rw [← found]
  · have other : ((⟨m.locks.mutexes.size⟩ : MutexId) == id) = false :=
      beq_eq_false_iff_ne.mpr fun same => new (same ▸ rfl)
    refine ⟨?_, fun mu found counts => ?_⟩
    · rw [LockTable.refsOf, LockTable.getPush, if_neg new, Array.toList_push, liveHoldsAppend, liveHoldsSingle]
      simp only [other, Bool.and_false, Bool.false_eq_true, if_false, Nat.add_zero]
      exact counted
    · rw [LockTable.getPush, if_neg new] at found
      exact revived mu found counts

theorem Lifetime.lock (life : m.Lifetime) (created : m.locks.create name note owner = .ok (locks, mutex)) :
    ({ m with locks := locks, holds := m.holds.push { mutex := mutex } } : Machine).Lifetime ∧
      m.Grows { m with locks := locks, holds := m.holds.push { mutex := mutex } } := by
  have grow : ∀ v, m.ValueLive v →
      ({ m with locks := locks, holds := m.holds.push { mutex := mutex } } : Machine).ValueLive v :=
    fun v => valueLiveGrow (fun i h found => by
      show (m.holds.push _)[i]? = some h
      rw [Array.getElem?_push, if_neg (Nat.ne_of_lt (Array.getElem?_eq_some_iff.mp found).1)]
      exact found) rfl
  exact ⟨⟨fun v held => grow v (life.held v held), life.kept, life.sized, life.locks.create created⟩,
    grow, fun id tracked => tracked.lock created⟩

end Lock

end Machine

namespace Exec

open Machine

variable {pid : Nat} {α β : Type} {m : Machine} {P Q : Machine → Prop} {A A' : α → Machine → Prop}
  {B : β → Machine → Prop}

/-- Running `x` from the living state `m` leaves a living state that keeps the live values of
`m` live and its tracked locks tracked, answering as `A` says when it answers. -/
def Lands (m : Machine) (x : Exec α) (A : α → Machine → Prop) : Prop :=
  Post x m (fun a m' => m'.Lifetime ∧ m.Grows m' ∧ A a m') fun _ m' => m'.Lifetime ∧ m.Grows m'

/-- `x` lands from every living state where `P` holds. -/
def Lives (P : Machine → Prop) (x : Exec α) (A : α → Machine → Prop) : Prop :=
  ∀ m, m.Lifetime → P m → Lands m x A

/-- The answer of an instruction: a value it returns is live. -/
def RetLive (o : Outcome) (m : Machine) : Prop := ∀ v, o = .ret (some v) → m.ValueLive v

theorem retContinue (m : Machine) : RetLive .continue m := fun _ same => nomatch same

theorem landsBind {x : Exec α} {f : α → Exec β} (first : Lands m x A)
    (next : ∀ a m', m'.Lifetime → m.Grows m' → A a m' → Lands m' (f a) B) : Lands m (x >>= f) B := by
  unfold Lands at *
  rw [postBind]
  refine first.mono (fun a m₁ ⟨life₁, grows₁, ans⟩ => ?_) fun _ _ h => h
  exact (next a m₁ life₁ grows₁ ans).mono (fun _ _ ⟨life₂, grows₂, ans₂⟩ => ⟨life₂, grows₁.trans grows₂, ans₂⟩)
    fun _ _ ⟨life₂, grows₂⟩ => ⟨life₂, grows₁.trans grows₂⟩

theorem Lands.after {m' : Machine} {x : Exec α} (lands : Lands m' x A) (grows : m.Grows m') :
    Post x m' (fun a m'' => m''.Lifetime ∧ m.Grows m'' ∧ A a m'') fun _ m'' => m''.Lifetime ∧ m.Grows m'' :=
  lands.mono (fun _ _ ⟨life, grows', ans⟩ => ⟨life, grows.trans grows', ans⟩)
    fun _ _ ⟨life, grows'⟩ => ⟨life, grows.trans grows'⟩

theorem livesBind {x : Exec α} {f : α → Exec β} (first : Lives P x A) (next : ∀ a, Lives (A a) (f a) B) :
    Lives P (x >>= f) B :=
  fun m life pre => landsBind (first m life pre) fun a m' life' _ ans => next a m' life' ans

theorem Lives.mono {x : Exec α} (lives : Lives P x A) (pre : ∀ m, Q m → P m) (post : ∀ a m, A a m → A' a m) :
    Lives Q x A' :=
  fun m life given => (lives m life (pre m given)).mono (fun a _ ⟨life', grows, ans⟩ => ⟨life', grows, post a _ ans⟩)
    fun _ _ h => h

theorem livesPure (a : α) (ans : ∀ m, P m → A a m) : Lives P (pure a) A :=
  fun m life pre => ⟨life, .refl m, ans m pre⟩

theorem livesThrow (e : Fault) : Lives P (throw e : Exec α) A := fun m life _ => ⟨life, .refl m⟩

theorem livesThrowBind (e : Fault) (f : α → Exec β) : Lives P (throw e >>= f) B := fun m life _ => ⟨life, .refl m⟩

theorem livesIte {c : Prop} [Decidable c] {x y : Exec α} (hx : Lives P x A) (hy : Lives P y A) :
    Lives P (if c then x else y) A := by
  split
  · exact hx
  · exact hy

theorem livesGuard {c : Prop} [Decidable c] {e : Fault} {k : Unit → Exec β} (rest : Lives P (k ()) B) :
    Lives P (if c then throw e >>= k else k ()) B :=
  livesIte (livesThrowBind e k) rest

theorem livesDiscard {x : Exec α} (hx : Lives P x A) : Lives P (discard x) fun _ _ => True :=
  fun m life pre => (postDiscard x).2 ((hx m life pre).mono (fun _ _ ⟨life', grows, _⟩ => ⟨life', grows, trivial⟩)
    fun _ _ h => h)

theorem livesOfRead {x : Exec α} {R : α → Machine → Prop}
    (reads : ∀ m, m.Lifetime → Post x m (fun a m' => m' = m ∧ R a m) fun _ m' => m' = m) :
    Lives P x fun a m => P m ∧ R a m :=
  fun m life pre => (reads m life).mono (fun a m' ⟨same, ans⟩ => by subst same; exact ⟨life, .refl _, pre, ans⟩)
    fun _ m' same => by subst same; exact ⟨life, .refl _⟩

theorem livesGet : Lives P (get : Exec Machine) fun a m => P m ∧ a = m := livesOfRead fun _ _ => postGet.mpr ⟨rfl, rfl⟩

theorem livesLiftFault (r : Except Fault α) : Lives P (liftFault r) fun a m => P m ∧ r = .ok a :=
  livesOfRead fun _ _ => by
    rw [postLiftFault]
    cases r with
    | ok a => exact ⟨rfl, rfl⟩
    | error e => rfl

theorem landsBindGet {f : Machine → Exec β} (next : Lands m (f m) B) : Lands m (get >>= f) B := by
  unfold Lands
  rw [postBind, postGet]
  exact next

theorem landsBindProc {f : Process → Exec β} (life : m.Lifetime)
    (next : ∀ p, m.proc? pid = some p → Lands m (f p) B) : Lands m (proc pid >>= f) B := by
  unfold Lands
  rw [postBind, postProc]
  split
  · rename_i p found
    exact next p found
  · exact ⟨life, .refl m⟩

theorem livesBindProc {f : Process → Exec β}
    (next : ∀ m p, m.Lifetime → P m → m.proc? pid = some p → Lands m (f p) B) : Lives P (proc pid >>= f) B :=
  fun m life pre => landsBindProc life (next m · life pre)

theorem landsSetProc {q : Process} (life : m.Lifetime) (alive : m.ProcLive q) {A : Unit → Machine → Prop}
    (ans : A () (m.setProc q)) : Lands m (setProc q) A := by
  unfold Lands
  rw [postSetProc]
  exact ⟨life.setProc alive, growsSetProc m q, ans⟩

theorem landsSetProcBind {q : Process} {f : PUnit → Exec β} (next : Lands (m.setProc q) (f ()) B) :
    Lands m (setProc q >>= f) B := by
  unfold Lands
  rw [postBind, postSetProc]
  exact next.after (growsSetProc m q)

theorem livesPureBind {a : α} {f : α → Exec β} (next : Lives P (f a) B) : Lives P (pure a >>= f) B := by
  rw [pure_bind]
  exact next

theorem livesTopFrame : Lives P (topFrame pid) fun f m => P m ∧ ∀ v ∈ f.locals, m.ValueLive v := by
  refine livesOfRead fun m life => ?_
  rw [postTopFrame]
  split
  · rename_i p found
    split
    · rename_i f top
      exact ⟨rfl, fun v mem => (life.found found).1 v (Process.heldOfLocal (Array.mem_of_back? top) mem)⟩
    · rfl
  · rfl

theorem livesPeek : Lives P (peek pid) fun v m => P m ∧ m.ValueLive v := by
  refine livesOfRead fun m life => ?_
  unfold peek
  rw [postBind, postProc]
  split
  · rename_i p found
    rw [postLiftFault]
    split
    · rename_i v peeked
      exact ⟨rfl, (life.found found).1 v (Process.peekedHeld peeked)⟩
    · rfl
  · rfl

theorem landsPure {a : α} (life : m.Lifetime) (ans : A a m) : Lands m (pure a) A := ⟨life, .refl m, ans⟩

theorem landsThrow {e : Fault} (life : m.Lifetime) : Lands m (throw e : Exec α) A := ⟨life, .refl m⟩

theorem landsThrowBind {e : Fault} {f : α → Exec β} (life : m.Lifetime) : Lands m (throw e >>= f) B :=
  ⟨life, .refl m⟩

theorem landsGuard {c : Prop} [Decidable c] {e : Fault} {k : Unit → Exec β} (life : m.Lifetime)
    (rest : Lands m (k ()) B) : Lands m (if c then throw e >>= k else k ()) B := by
  split
  · exact landsThrowBind life
  · exact rest

theorem livesPush (v : Value) : Lives (fun m => m.ValueLive v) (push pid v) fun _ _ => True := by
  intro m life live
  unfold push
  refine landsBindProc life fun p found => ?_
  unfold Lands
  rw [postBind, postLiftFault]
  split
  · rename_i q pushed
    exact landsSetProc life ((life.found found).draws (Process.drawsPushValue pushed) fun _ same => same ▸ live) trivial
  · exact ⟨life, .refl m⟩

theorem livesPop : Lives P (pop pid) fun v m => m.ValueLive v := by
  intro m life _
  unfold pop
  refine landsBindProc life fun p found => ?_
  unfold Lands
  rw [postBind, postLiftFault]
  split
  · rename_i r popped
    obtain ⟨q, v⟩ := r
    have taken : p.Draws q (fun _ => False) ∧ v ∈ p.held := Process.drawsPopValue popped
    rw [postBind, postSetProc, postPure]
    exact ⟨life.setFound found taken.1 fun _ no => no.elim, growsSetProc m q,
      (growsSetProc m q).values v ((life.found found).1 v taken.2)⟩
  · exact ⟨life, .refl m⟩

theorem livesModifyTop (g : Frame → Frame) {fresh : Value → Prop}
    (locals : ∀ f, ∀ v ∈ (g f).locals, v ∈ f.locals ∨ fresh v) :
    Lives (fun m => ∀ v, fresh v → m.ValueLive v) (modifyTop pid g) fun _ _ => True := by
  intro m life new
  unfold modifyTop
  exact landsBindProc life fun p found =>
    landsSetProc life ((life.found found).draws (Process.drawsModifyTop g locals) new) trivial

theorem livesRetop (g : Frame → Frame) (same : ∀ f, (g f).locals = f.locals) :
    Lives P (modifyTop pid g) fun _ _ => True :=
  have kept : ∀ f, ∀ v ∈ (g f).locals, v ∈ f.locals ∨ False := fun f _ mem => .inl (same f ▸ mem)
  (livesModifyTop g kept).mono (fun _ _ _ no => no.elim) fun _ _ h => h

theorem livesStoreLocal (i : Nat) (v : Value) :
    Lives (fun m => m.ValueLive v) (storeLocal pid i v) fun _ _ => True :=
  livesBind livesTopFrame fun _ => livesIte ((livesModifyTop _ fun _ _ mem => Process.memSet mem).mono
    (fun _ pre w (same : w = v) => same ▸ pre.1) fun _ _ h => h) (livesThrow _)

theorem landsPushFrame (code : CodeId) (w : Bool) (life : m.Lifetime) :
    Lands m (pushFrame pid code w) fun _ _ => True := by
  unfold pushFrame
  refine landsBindProc life fun p found => ?_
  unfold Lands
  simp only [postBind, postIte, postThrow, postGet, postSet]
  -- the unit may be relocated and a frame serial is taken before the frame is entered
  have moved : ∀ m₁ : Machine, m₁.Lifetime → m.Grows m₁ →
      Post (liftFault (p.pushFrame code (m₁.codeOrEmpty code).locals.size m₁.nextFrame w))
        { m₁ with nextFrame := m₁.nextFrame + 1 }
        (fun q m₂ => Post (setProc q) m₂ (fun _ m' => m'.Lifetime ∧ m.Grows m' ∧ True)
          fun _ m' => m'.Lifetime ∧ m.Grows m')
        fun _ m' => m'.Lifetime ∧ m.Grows m' := by
    intro m₁ life₁ grows₁
    have beside : Beside m₁ { m₁ with nextFrame := m₁.nextFrame + 1 } :=
      ⟨sameLiterals rfl, rfl, rfl, rfl, rfl, rfl⟩
    have grows₂ := grows₁.trans beside.grows
    have life₂ := life₁.beside beside fun _ mem => .inl mem
    rw [postLiftFault]
    split
    · rename_i q pushed
      rw [postSetProc]
      have alive := ((life.found found).grow grows₂).draws (Process.drawsPushFrame pushed)
        fun _ same => same ▸ trivial
      exact ⟨life₂.setProc alive, grows₂.trans (growsSetProc _ q), trivial⟩
    · exact ⟨life₂, grows₂⟩
  split
  · exact ⟨life, .refl m⟩
  · split
    · have beside := besideRelocate m code
      exact moved _ (life.beside beside fun _ mem => .inl mem) beside.grows
    · exact moved m life (.refl m)

theorem livesJump (c : Code) (j : Jump) : Lives P (jump pid c j) fun _ _ => True := by
  unfold jump
  refine livesGuard (livesGuard ?_)
  split
  · exact livesBindProc fun m p life _ found =>
      landsSetProc life ((life.found found).draws (Process.drawsPushHandler _)
        fun _ (no : False) => no.elim) trivial
  · -- the condition only reads the top value; then an optional pop and the frame moves on
    have rest : ∀ taken : Bool, Lives (fun _ => True) (if j.pop = true then
        discard (pop pid) >>= fun _ =>
          if taken = true then modifyTop pid (fun f => { f with pc := j.target }) else pure ()
        else if taken = true then modifyTop pid (fun f => { f with pc := j.target })
          else pure ()) fun _ _ => True := fun taken =>
      livesIte (livesBind (livesDiscard livesPop) fun _ =>
          livesIte (livesRetop _ fun _ => rfl) (livesPure _ fun _ _ => trivial))
        (livesIte (livesRetop _ fun _ => rfl) (livesPure _ fun _ _ => trivial))
    dsimp only
    cases j.condition with
    | always | handler => exact livesBind (livesPure _ fun _ _ => trivial) rest
    | ifTrue | ifFalse | ifEmpty =>
      exact livesBind livesPeek fun _ => livesBind (livesPure _ fun _ _ => trivial) rest

theorem memExtract {xs : Array α} {i j : Nat} {x : α} (mem : x ∈ xs.extract i j) : x ∈ xs := by
  obtain ⟨k, _, rfl⟩ := Array.mem_extract_iff_getElem.mp mem
  exact Array.getElem_mem _

theorem memTakeArgs {given : Array Value} {f : Frame} {v : Value} (mem : v ∈ (f.takeArgs given).locals) :
    v ∈ f.locals ∨ v ∈ given := by
  obtain ⟨j, at_⟩ := Array.mem_iff_getElem?.mp mem
  rw [takeArgsLocals] at at_
  split at at_
  · exact .inr (Array.mem_of_getElem? at_)
  · exact .inl (Array.mem_of_getElem? at_)

theorem livesCall (args : Nat) (w : Bool) : Lives P (call pid args w) fun _ _ => True := by
  intro m life pre
  unfold call
  refine landsBind (livesPop m life pre) fun callee m₁ life₁ _ _ => ?_
  split
  · rw [pure_bind]
    refine landsBindGet (landsGuard life₁ (landsGuard life₁ (landsBindProc life₁ fun p found => landsGuard life₁ ?_)))
    -- the arguments were on the caller's stack, so they are live when the callee's frame takes them
    have given : ∀ v ∈ p.values.extract (p.values.size - args) p.values.size, m₁.ValueLive v :=
      fun v mem => (life₁.found found).1 v (Process.heldOfValue (memExtract mem))
    have cut := (life₁.found found).draws (Process.drawsTake (p.values.size - args)) fun _ (no : False) => no.elim
    have grows₂ := growsSetProc m₁ { p with values := p.values.take (p.values.size - args) }
    refine landsSetProcBind (landsBind (landsPushFrame _ w (life₁.setProc cut)) fun _ m₃ life₃ grows₃ _ => ?_)
    exact livesModifyTop (Frame.takeArgs _) (fun _ _ mem => memTakeArgs mem) m₃ life₃
      fun v mem => grows₃.values v (grows₂.values v (given v mem))
  · exact landsThrowBind life₁

theorem livesControl (k : Control) : Lives P (control pid k) RetLive := by
  cases k with
  | uncatch =>
    refine livesBindProc fun m p life _ found => ?_
    split
    · rename_i q h popped
      have alive := (life.found found).draws (Process.drawsPopHandler popped) fun _ (no : False) => no.elim
      exact landsSetProcBind (landsPure (life.setProc alive) (retContinue _))
    · exact landsThrow life
  | throw => exact livesBind livesPop fun _ => livesBind livesGet fun _ => livesThrow _
  | terminate | suspend | stop => exact livesPure _ fun _ _ _ same => nomatch same
  | enter =>
    refine livesBind livesPop fun v => ?_
    split
    · refine livesBindProc fun m p life living found => ?_
      exact landsSetProcBind (landsPure (life.setProc ((life.found found).enter living)) (retContinue _))
    · exact livesThrow _
  | leave =>
    refine livesBind livesTopFrame fun f => livesBindProc fun m p life _ found => landsGuard life ?_
    have left : p.Draws p.popContext.1.markContextTos.1 fun _ => False ∨ False :=
      (Process.drawsPopContext p).trans (Process.drawsMarkContextTos _)
    have alive := (life.found found).draws left fun _ no => no.elim False.elim False.elim
    exact landsSetProcBind (landsPure (life.setProc alive) (retContinue _))
  | lock =>
    refine livesBind livesPop fun note => livesBind livesPop fun name => ?_
    cases name with
    | str s =>
      refine livesPureBind fun m life _ => landsBindGet ?_
      unfold Lands
      rw [postBind, postLiftFault]
      split
      · rename_i r created
        obtain ⟨locks, mutex⟩ := r
        -- the new lock's held reference is live in the state that made it
        obtain ⟨life', grows'⟩ := life.lock created
        simp only [addHold]
        rw [postBind, postSet]
        refine (landsBind (livesPush _ _ life' ?_) fun _ m'' life'' _ _ =>
          landsPure life'' (retContinue m'')).after grows'
        exact ⟨{ mutex := mutex }, Array.getElem?_push_size, rfl, rfl⟩
      · exact ⟨life, .refl m⟩
    | _ => exact livesThrowBind _ _

theorem livesInstr (pid : Nat) (c : Code) : ∀ op : Instr,
    Lives (fun m => ∀ v ∈ c.literals, m.ValueLive v) (instr pid c op) RetLive
  | .nop | .label _ => livesPure _ fun m _ => retContinue m
  | .pushLiteral i => by
    dsimp only [instr]
    split
    · rename_i v found
      refine livesBind ((livesPush v).mono (fun _ lits => lits v (Array.mem_of_getElem? found)) fun _ _ h => h)
        fun _ => livesPure _ fun m _ => retContinue m
    · exact livesThrow _
  | .pushLocal i => by
    refine livesBind livesTopFrame fun f => ?_
    split
    · rename_i v found
      exact livesBind ((livesPush v).mono (fun _ pre => pre.2 v (Array.mem_of_getElem? found)) fun _ _ h => h)
        fun _ => livesPure _ fun m _ => retContinue m
    · exact livesThrow _
  | .storeLocal i => livesBind livesPeek fun v => livesBind ((livesStoreLocal i v).mono (fun _ pre => pre.2)
      fun _ _ h => h) fun _ => livesPure _ fun m _ => retContinue m
  | .popLocal i => livesBind livesPop fun v => livesBind (livesStoreLocal i v) fun _ =>
      livesPure _ fun m _ => retContinue m
  | .pushName i => by
    dsimp only [instr]
    split
    · refine livesPureBind fun m life _ => landsBindGet (landsBindProc life fun p found => ?_)
      split
      · rename_i v looked
        exact landsBind (livesPush v m life (life.lookup (life.found found) looked))
          fun _ m' life' _ _ => landsPure life' (retContinue m')
      · exact landsThrow life
    · exact livesThrowBind _ _
  | .storeName i => by
    dsimp only [instr]
    split
    · refine livesPureBind (livesBind livesPeek fun v => livesBindProc fun m p life pre found => landsBindGet ?_)
      unfold Lands
      rw [postBind, postLiftFault]
      split
      · rename_i r assigned
        obtain ⟨m', done⟩ := r
        obtain ⟨life', grows'⟩ := life.assignName pre.2 assigned
        simp only [postBind, postSet, postIte, postPure, postThrow]
        split
        · exact ⟨life', grows', retContinue m'⟩
        · exact ⟨life', grows'⟩
      · exact ⟨life, .refl m⟩
    · exact livesThrowBind _ _
  | .binary op =>
    livesBind livesPop fun _ => livesBind livesPop fun _ => livesBind livesGet fun _ =>
      livesBind (livesLiftFault _) fun r => livesBind ((livesPush r).mono (fun _ pre => binaryLive pre.2)
        fun _ _ h => h) fun _ => livesPure _ fun m _ => retContinue m
  | .unary op =>
    livesBind livesPop fun _ => livesBind (livesLiftFault _) fun r =>
      livesBind ((livesPush r).mono (fun _ pre => unaryLive pre.2) fun _ _ h => h) fun _ =>
        livesPure _ fun m _ => retContinue m
  | .drop n => livesBindProc fun m p life _ found => landsGuard life (landsSetProcBind (landsPure
      (life.setProc ((life.found found).draws (Process.drawsTake _) fun _ (no : False) => no.elim)) (retContinue _)))
  | .dup d => livesBindProc fun m p life _ found => landsGuard life (by
      split
      · rename_i v at_
        have live := (life.found found).1 v (Process.heldOfValue (Array.mem_of_getElem? at_))
        exact landsBind (livesPush v m life live) fun _ m' life' _ _ => landsPure life' (retContinue m')
      · exact landsThrow life)
  | .jump j => livesBind (livesJump c j) fun _ => livesPure _ fun m _ => retContinue m
  | .call args w => livesBind (livesCall args w) fun _ => livesPure _ fun m _ => retContinue m
  | .ret 0 => livesPure _ fun _ _ _ same => by cases same; trivial
  | .ret 1 => livesBind livesPop fun _ => livesPure _ fun _ live _ same => by cases same; exact live
  | .ret (n + 2) => livesThrow _
  | .control k => livesControl k

end Exec

namespace Machine

open Exec

variable {m : Machine}

theorem Lifetime.step (life : m.Lifetime) (pid : Nat) :
    (m.step pid).1.Lifetime ∧ m.Grows (m.step pid).1 ∧
      ∀ v, (m.step pid).2 = .ok (.ret (some v)) → (m.step pid).1.ValueLive v := by
  unfold Machine.step
  dsimp only
  split
  · exact ⟨life, .refl m, fun _ same => nomatch same⟩
  · rename_i p found
    split
    · exact ⟨life, .refl m, fun _ same => nomatch same⟩
    · rename_i f top
      split
      · exact ⟨life, .refl m, fun _ same => nomatch same⟩
      · rename_i op _
        -- the frame moves past the instruction, which runs with its unit's literals live
        have moved : p.Draws (p.modifyTop fun f => { f with pc := f.pc + 1 }) fun _ => False :=
          Process.drawsModifyTop _ fun _ _ mem => .inl mem
        have life₁ := life.setFound found moved fun _ no => no.elim
        have grows₁ := growsSetProc m (p.modifyTop fun f => { f with pc := f.pc + 1 })
        have lits := fun v lit => grows₁.values v (life.codeLiterals f.code v lit)
        have lands := livesInstr pid (m.codeOrEmpty f.code) op _ life₁ lits
        unfold Lands Post at lands
        revert lands
        -- the step answers what the instruction answers, in the state it leaves
        rcases (instr pid (m.codeOrEmpty f.code) op).run (m.setProc (p.modifyTop fun f => { f with pc := f.pc + 1 }))
          with ⟨_ | o, m'⟩
        · intro lands
          exact ⟨lands.1, grows₁.trans lands.2, fun _ same => nomatch same⟩
        · intro lands
          exact ⟨lands.1, grows₁.trans lands.2.1, fun v same => lands.2.2 v (Except.ok.inj same)⟩

end Machine

end ScriptEngine
