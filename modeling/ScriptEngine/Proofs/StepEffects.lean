import Mathlib.Logic.Relation
import ScriptEngine.Proofs.Postcondition
/-!
What one instruction can do to the engine. `Process.Step` lists the changes an instruction
makes to the process running it, each with the check the instruction makes first: values
are pushed while there is room and popped or dropped only above the innermost frame's base,
the innermost frame moves on (its next instruction, locals and visible contexts), a context
is entered or left above the frame's own, a frame is entered, a handler is installed while
there is a frame or removed above the frame's own. `Machine.Change` adds what an
instruction does elsewhere: writes through a view of a frame's locals, and changes that
leave every process alone. `Machine.stepEvolves` shows that an instruction does nothing
else, so a property of processes kept by each change is kept by every instruction.
-/
namespace ScriptEngine

/-- `g` is `f` moved on: only its next instruction, its locals and its visible contexts
differ. -/
def Frame.Retains (f g : Frame) : Prop :=
  g = { f with pc := g.pc, locals := g.locals, contextTos := g.contextTos }

namespace Process

/-- One change an instruction makes to the process that runs it. -/
inductive Step (p : Process) : Process → Prop where
  | push (v : Value) (room : p.values.size < p.limits.maxValues) :
      Step p { p with values := p.values.push v }
  | pop (above : p.valueFloor < p.values.size) : Step p { p with values := p.values.pop }
  | drop (n : Nat) (above : p.valueFloor + n ≤ p.values.size) :
      Step p { p with values := p.values.take (p.values.size - n) }
  | retop (g : Frame → Frame) (keeps : ∀ f : Frame, f.Retains (g f)) : Step p (p.modifyTop g)
  | enter (c : ContextId) : Step p (p.pushContext c).markContextTos.1
  | leave (f : Frame) (top : p.frames.back? = some f) (above : f.contextSp < p.contexts.size) :
      Step p p.popContext.1.markContextTos.1
  | pushFrame {q : Process} (code : CodeId) (n serial : Nat) (w : Bool)
      (pushed : p.pushFrame code n serial w = .ok q) : Step p q
  | pushHandler (pc : Nat) (framed : p.frames ≠ #[]) : Step p (p.pushHandler pc)
  | popHandler {q : Process} {h : Handler} (popped : p.popHandler = some (q, h)) : Step p q

theorem modifyTopFrames (p : Process) (g : Frame → Frame) :
    (p.modifyTop g).frames.size = p.frames.size := by
  unfold modifyTop
  split
  · rename_i f top
    have : p.frames ≠ #[] := by rintro h; simp [h] at top
    have : 0 < p.frames.size := Array.size_pos_iff.mpr this
    simp; omega
  · rfl

@[simp] theorem modifyTopId (p : Process) (g : Frame → Frame) : (p.modifyTop g).id = p.id := by
  unfold modifyTop; split <;> rfl

theorem pushFrameOk {p q : Process} {code : CodeId} {n serial : Nat} {w : Bool}
    (h : p.pushFrame code n serial w = .ok q) :
    p.frames.size < p.limits.maxFrames ∧
      q = { p with
        frames := p.frames.push {
          code := code, locals := Array.replicate n .empty, index := p.frames.size,
          serial := serial, contextSp := p.contexts.size, contextTos := p.contexts.size,
          handlerSp := p.handlers.size, valueSp := p.values.size, wantResult := w }
        contextTos := p.contexts.size } := by
  unfold pushFrame at h
  split at h
  · cases h
  · cases h
    exact ⟨by omega, rfl⟩

theorem popHandlerSome {p q : Process} {h : Handler} (popped : p.popHandler = some (q, h)) :
    (p.frames.back?.map (·.handlerSp)).getD 0 < p.handlers.size ∧ p.handlers.back? = some h ∧
      q = { p with handlers := p.handlers.pop } := by
  simp only [Process.popHandler] at popped
  split at popped
  · rename_i above
    cases hb : p.handlers.back? with
    | none => simp [hb] at popped
    | some h' =>
      simp only [hb, Option.map_some, Option.some.injEq, Prod.mk.injEq] at popped
      obtain ⟨rfl, rfl⟩ := popped
      exact ⟨above, rfl, rfl⟩
  · cases popped

theorem Step.id {p q : Process} (h : p.Step q) : q.id = p.id := by
  cases h with
  | push | pop | drop | pushHandler => rfl
  | retop g keeps => exact modifyTopId p g
  | enter c => simp [pushContext, markContextTos]
  | leave f top above => simp [popContext, markContextTos]
  | pushFrame code n serial w pushed => rw [(pushFrameOk pushed).2]
  | popHandler popped => rw [(popHandlerSome popped).2.2]

theorem Step.framed {p q : Process} (h : p.Step q) (framed : p.frames ≠ #[]) :
    q.frames ≠ #[] := by
  cases h with
  | push | pop | drop | pushHandler => exact framed
  | retop g keeps =>
    rw [← Array.size_pos_iff, modifyTopFrames]
    exact Array.size_pos_iff.mpr framed
  | enter c =>
    rw [← Array.size_pos_iff]
    simpa [pushContext, markContextTos, modifyTopFrames] using Array.size_pos_iff.mpr framed
  | leave f top above =>
    rw [← Array.size_pos_iff]
    simpa [popContext, markContextTos, modifyTopFrames] using Array.size_pos_iff.mpr framed
  | pushFrame code n serial w pushed => simp [(pushFrameOk pushed).2]
  | popHandler popped => rw [(popHandlerSome popped).2.2]; exact framed

end Process

namespace Machine

/-- One change an instruction of process `pid` makes to the engine. -/
inductive Change (pid : Nat) (m : Machine) : Machine → Prop where
  | proc {p q : Process} (found : m.proc? pid = some p) (step : p.Step q) :
      Change pid m (m.setProc q)
  | view (v : FrameView) (i : Nat) (x : Value) : Change pid m (m.setViewLocal v i x).1
  | outside {m' : Machine} (same : m'.procs = m.procs) : Change pid m m'

/-- The states an instruction of process `pid` can lead to. -/
def Evolves (pid : Nat) : Machine → Machine → Prop := Relation.ReflTransGen (Change pid)

/-- Process `pid` exists and has a frame, as it does while it executes an instruction. -/
def Live (pid : Nat) (m : Machine) : Prop := ∃ p, m.proc? pid = some p ∧ p.frames ≠ #[]

theorem procOfProcs {m m' : Machine} (same : m'.procs = m.procs) (pid : Nat) :
    m'.proc? pid = m.proc? pid := by
  simp [proc?, same]

theorem setViewLocalEq (m : Machine) (v : FrameView) (i : Nat) (x : Value) :
    (m.setViewLocal v i x).1 = m ∨
      ∃ p k f, m.proc? v.process = some p ∧ p.frames[k]? = some f ∧
        (m.setViewLocal v i x).1 =
          m.setProc { p with frames := p.frames.set! k { f with locals := f.locals.set! i x } } := by
  unfold setViewLocal
  split
  · exact .inl rfl
  · rename_i p hp
    split
    · exact .inl rfl
    · rename_i k hk
      split
      · rename_i f hf
        split
        · exact .inr ⟨p, k, f, hp, hf, rfl⟩
        · exact .inl rfl
      · exact .inl rfl

theorem Change.live {pid : Nat} {m m' : Machine} (h : Change pid m m') (live : Live pid m) :
    Live pid m' := by
  obtain ⟨p₀, found₀, framed⟩ := live
  cases h with
  | proc found step =>
    rw [found₀] at found
    cases found
    exact ⟨_, procSetFound found₀ (step.id.trans (procIdOf found₀)), step.framed framed⟩
  | view v i x =>
    rcases setViewLocalEq m v i x with same | ⟨p, k, f, hp, hf, eq⟩
    · rw [same]
      exact ⟨p₀, found₀, framed⟩
    · rw [eq]
      by_cases hv : pid = v.process
      · subst hv
        rw [found₀] at hp
        cases hp
        refine ⟨_, procSetFound found₀ (by simp [procIdOf found₀]), ?_⟩
        simpa [← Array.size_pos_iff] using framed
      · exact ⟨p₀, by rw [procSetProcOther _ _ (by rwa [procIdOf hp]), found₀], framed⟩
  | outside same => exact ⟨p₀, by rw [procOfProcs same, found₀], framed⟩

theorem Evolves.live {pid : Nat} {m m' : Machine} (h : Evolves pid m m') (live : Live pid m) :
    Live pid m' := by
  induction h with
  | refl => exact live
  | tail _ step ih => exact step.live ih

theorem Evolves.change {pid : Nat} {m m' : Machine} (h : Change pid m m') : Evolves pid m m' :=
  Relation.ReflTransGen.single h

theorem Evolves.trans {pid : Nat} {m₁ m₂ m₃ : Machine} (h₁ : Evolves pid m₁ m₂)
    (h₂ : Evolves pid m₂ m₃) : Evolves pid m₁ m₃ :=
  Relation.ReflTransGen.trans h₁ h₂

end Machine

namespace Exec

open Machine

theorem postState {α : Type} {x : Exec α} {m : Machine} {Q : Machine → Prop} :
    Post x m (fun _ => Q) (fun _ => Q) ↔ Q (x.run m).2 := by
  unfold Post
  split <;> simp_all

/-- Running `x` from a state where process `pid` has a frame reaches only states an
instruction of `pid` may lead to, whatever `x` answers. -/
def Keeps (pid : Nat) {α : Type} (x : Exec α) : Prop :=
  ∀ m, Live pid m → Post x m (fun _ => Evolves pid m) (fun _ => Evolves pid m)

variable {pid : Nat} {α β : Type}

theorem keepsPure (a : α) : Keeps pid (pure a : Exec α) := fun _ _ => .refl

theorem keepsThrow (e : Fault) : Keeps pid (throw e : Exec α) := fun _ _ => .refl

theorem Keeps.after {x : Exec α} (keeps : Keeps pid x) {m m' : Machine} (live : Live pid m)
    (before : Evolves pid m m') : Post x m' (fun _ => Evolves pid m) (fun _ => Evolves pid m) :=
  (keeps m' (before.live live)).mono (fun _ _ h => before.trans h) (fun _ _ h => before.trans h)

theorem keepsBind {x : Exec α} {f : α → Exec β} (first : Keeps pid x) (next : ∀ a, Keeps pid (f a)) :
    Keeps pid (x >>= f) := by
  intro m live
  rw [postBind]
  exact (first m live).mono (fun a _ h => (next a).after live h) (fun _ _ h => h)

theorem keepsBindProc {f : Process → Exec β}
    (next : ∀ m p, Live pid m → m.proc? pid = some p →
      Post (f p) m (fun _ => Evolves pid m) (fun _ => Evolves pid m)) :
    Keeps pid (proc pid >>= f) := by
  intro m live
  rw [postBind, postProc]
  split
  · rename_i p found
    exact next m p live found
  · exact .refl

theorem keepsBindGet {f : Machine → Exec β}
    (next : ∀ m, Live pid m → Post (f m) m (fun _ => Evolves pid m) (fun _ => Evolves pid m)) :
    Keeps pid (get >>= f) := fun m live => by
  rw [postBind, postGet]
  exact next m live

theorem keepsBindTopFrame {f : Frame → Exec β}
    (next : ∀ m p fr, Live pid m → m.proc? pid = some p → p.frames.back? = some fr →
      Post (f fr) m (fun _ => Evolves pid m) (fun _ => Evolves pid m)) :
    Keeps pid (topFrame pid >>= f) := by
  intro m live
  rw [postBind, postTopFrame]
  split
  · rename_i p found
    split
    · rename_i fr top
      exact next m p fr live found top
    · exact .refl
  · exact .refl

theorem keepsOfRead {x : Exec α} (reads : ∀ m, Post x m (fun _ m' => m' = m) (fun _ m' => m' = m)) :
    Keeps pid x := fun m _ =>
  (reads m).mono (fun _ _ h => h ▸ .refl) (fun _ _ h => h ▸ .refl)

theorem keepsLiftFault (r : Except Fault α) : Keeps pid (liftFault r) :=
  keepsOfRead fun _ => by cases r <;> rfl

theorem keepsProc (q : Nat) : Keeps pid (proc q) :=
  keepsOfRead fun m => by rw [postProc]; split <;> rfl

theorem keepsTopFrame (q : Nat) : Keeps pid (topFrame q) :=
  keepsOfRead fun m => by rw [postTopFrame]; split <;> (try split) <;> rfl

theorem keepsPeek (q : Nat) : Keeps pid (peek q) := by
  unfold peek
  exact keepsBind (keepsProc q) fun p => keepsLiftFault _

theorem postSetProcThen {m : Machine} {p q : Process} {rest : Exec β} (live : Live pid m)
    (found : m.proc? pid = some p) (step : p.Step q) (next : Keeps pid rest) :
    Post (setProc q >>= fun _ => rest) m (fun _ => Evolves pid m) (fun _ => Evolves pid m) := by
  rw [postBind, postSetProc]
  exact next.after live (.change (.proc found step))

theorem postSetProcStep {m : Machine} {p q : Process} (found : m.proc? pid = some p)
    (step : p.Step q) :
    Post (setProc q) m (fun _ => Evolves pid m) (fun _ => Evolves pid m) := by
  rw [postSetProc]
  exact .change (.proc found step)

@[simp] theorem evolvesSelf (m : Machine) : Evolves pid m m := .refl

/-! The primitives the instructions are written with. -/

theorem Process.pushValueStep {p q : Process} {v : Value} (h : p.pushValue v = .ok q) :
    p.Step q := by
  unfold Process.pushValue at h
  split at h
  · cases h
  · cases h
    exact .push v (by omega)

theorem Process.popValueStep {p q : Process} {v : Value} (h : p.popValue = .ok (q, v)) :
    p.Step q := by
  unfold Process.popValue at h
  split at h
  · cases h
  · split at h
    · cases h
      exact .pop (by omega)
    · cases h

theorem keepsPush (v : Value) : Keeps pid (push pid v) := by
  unfold push
  refine keepsBindProc fun m p live found => ?_
  rw [postBind, postLiftFault]
  split
  · rename_i q pushed
    exact postSetProcStep found (Process.pushValueStep pushed)
  · exact .refl

theorem keepsPop : Keeps pid (pop pid) := by
  unfold pop
  refine keepsBindProc fun m p live found => ?_
  rw [postBind, postLiftFault]
  split
  · rename_i r popped
    obtain ⟨q, v⟩ := r
    exact postSetProcThen live found (Process.popValueStep popped) (keepsPure v)
  · exact .refl

theorem keepsModifyTop (g : Frame → Frame) (keeps : ∀ f : Frame, f.Retains (g f)) :
    Keeps pid (modifyTop pid g) := by
  unfold modifyTop
  exact keepsBindProc fun m p _ found => postSetProcStep found (.retop g keeps)

theorem keepsStoreLocal (i : Nat) (v : Value) : Keeps pid (storeLocal pid i v) := by
  unfold storeLocal
  refine keepsBind (keepsTopFrame pid) fun f => ?_
  split
  · exact keepsModifyTop _ fun _ => rfl
  · exact keepsThrow _

theorem keepsGuard {c : Prop} [Decidable c] {e : Fault} {k : Unit → Exec β}
    (rest : Keeps pid (k ())) : Keeps pid (if c then throw e >>= k else k ()) := by
  split
  · exact keepsBind (keepsThrow e) fun _ => rest
  · exact rest

theorem keepsThrowBind (e : Fault) (f : α → Exec β) : Keeps pid (throw e >>= f) :=
  fun _ _ => .refl

theorem postGuard {c : Prop} [Decidable c] {e : Fault} {k : Unit → Exec β} {m : Machine}
    (rest : ¬c → Post (k ()) m (fun _ => Evolves pid m) (fun _ => Evolves pid m)) :
    Post (if c then throw e >>= k else k ()) m (fun _ => Evolves pid m) (fun _ => Evolves pid m) := by
  split
  · exact .refl
  · rename_i hc
    exact rest hc

theorem keepsIte {c : Prop} [Decidable c] {x y : Exec β} (hx : Keeps pid x) (hy : Keeps pid y) :
    Keeps pid (if c then x else y) := by
  split
  · exact hx
  · exact hy

theorem keepsDiscard {x : Exec α} (hx : Keeps pid x) : Keeps pid (discard x) := fun m live => by
  rw [postDiscard]
  exact hx m live

theorem pushFrameEvolves (code : CodeId) (w : Bool) (m : Machine) :
    Post (pushFrame pid code w) m (fun _ => Evolves pid m) (fun _ => Evolves pid m) := by
  unfold pushFrame
  rw [postBind, postProc]
  split
  case h_2 => exact .refl
  rename_i p found
  simp only [postBind, postIte, postThrow, postGet, postSet, evolvesSelf]
  -- the unit may be relocated and a frame serial is taken: neither touches a process
  have moved : ∀ m' : Machine, m'.procs = m.procs →
      Post (liftFault (p.pushFrame code (m'.codeOrEmpty code).locals.size m'.nextFrame w))
        { m' with nextFrame := m'.nextFrame + 1 }
        (fun q m'' => Post (setProc q) m'' (fun _ => Evolves pid m) (fun _ => Evolves pid m))
        (fun _ => Evolves pid m) := by
    intro m' same
    have same' : ({ m' with nextFrame := m'.nextFrame + 1 } : Machine).procs = m.procs := same
    have outside : Evolves pid m { m' with nextFrame := m'.nextFrame + 1 } :=
      .change (.outside same')
    rw [postLiftFault]
    split
    · rename_i q pushed
      rw [postSetProc]
      exact outside.trans (.change (.proc ((procOfProcs same' pid).trans found)
        (.pushFrame _ _ _ _ pushed)))
    · exact outside
  split
  · trivial
  · split
    · exact moved (m.modifyCode code Code.relocate) rfl
    · exact moved m rfl

theorem keepsPushFrame (code : CodeId) (w : Bool) : Keeps pid (pushFrame pid code w) :=
  fun m _ => pushFrameEvolves code w m

theorem keepsJump (c : Code) (j : Jump) : Keeps pid (jump pid c j) := by
  unfold jump
  refine keepsGuard (keepsGuard (keepsIte ?_ ?_))
  · -- a handler install records the innermost frame, which exists while an instruction runs
    exact keepsBindProc fun m p live found => by
      obtain ⟨p', found', framed⟩ := live
      rw [found] at found'
      cases found'
      exact postSetProcStep found (.pushHandler _ framed)
  · -- the condition only reads the top value; then an optional pop and the frame moves on
    have rest : ∀ taken : Bool, Keeps pid (if j.pop = true then
        discard (pop pid) >>= fun _ =>
          if taken = true then modifyTop pid (fun f => { f with pc := j.target }) else pure ()
        else if taken = true then modifyTop pid (fun f => { f with pc := j.target })
          else pure ()) := fun taken =>
      keepsIte (keepsBind (keepsDiscard keepsPop) fun _ =>
          keepsIte (keepsModifyTop _ fun _ => rfl) (keepsPure _))
        (keepsIte (keepsModifyTop _ fun _ => rfl) (keepsPure _))
    dsimp only
    split
    · exact keepsBind (keepsPeek pid) fun _ => keepsBind (keepsPure _) fun taken => rest taken
    · exact keepsBind (keepsPeek pid) fun _ => keepsBind (keepsPure _) fun taken => rest taken
    · exact keepsBind (keepsPeek pid) fun _ => keepsBind (keepsPure _) fun taken => rest taken
    · exact keepsBind (keepsPure _) fun taken => rest taken

theorem keepsGet : Keeps pid (get : Exec Machine) := keepsOfRead fun _ => rfl

theorem keepsCall (args : Nat) (w : Bool) : Keeps pid (call pid args w) := by
  unfold call
  refine keepsBind keepsPop fun callee => ?_
  split
  · refine keepsBind (keepsPure _) fun id => keepsBind keepsGet fun _ => ?_
    refine keepsGuard (keepsGuard (keepsBindProc fun m p live found => postGuard fun hc => ?_))
    -- the arguments leave the caller's stack above its base and become the callee's locals
    exact postSetProcThen live found (.drop args (by omega))
      (keepsBind (keepsPushFrame _ _) fun _ => keepsModifyTop _ fun _ => rfl)
  · exact keepsThrowBind _ _

end Exec

namespace Machine

open Exec

theorem firstAssignEvolves {pid fuel : Nat}
    (step : ∀ m id name x m' b, m.assignIn fuel id name x = .ok (m', b) → Evolves pid m m') :
    ∀ (cs : List ContextId) m name x m' b,
      assignIn.firstAssign fuel m cs name x = .ok (m', b) → Evolves pid m m'
  | [], m, name, x, m', b, h => by
    rw [assignIn.firstAssign.eq_1] at h
    cases h
    exact .refl
  | c :: cs, m, name, x, m', b, h => by
    rw [assignIn.firstAssign.eq_2] at h
    cases hc : m.assignIn fuel c name x with
    | error e => simp [hc, bind, Except.bind] at h
    | ok r =>
      obtain ⟨m₁, done⟩ := r
      have first := step _ _ _ _ _ _ hc
      simp only [hc, bind, Except.bind] at h
      split at h
      · cases h
        exact first
      · exact first.trans (firstAssignEvolves step cs m₁ name x m' b h)

theorem assignInEvolves (pid : Nat) :
    ∀ (fuel : Nat) m id name x m' b, m.assignIn fuel id name x = .ok (m', b) → Evolves pid m m'
  | 0, m, id, name, x, m', b, h => by
    rw [assignIn.eq_1] at h
    cases h
    exact .refl
  | fuel + 1, m, id, name, x, m', b, h => by
    rw [assignIn.eq_2] at h
    split at h
    · split at h <;> cases h
      · exact .change (.outside rfl)
      · exact .refl
    · split at h
      · cases h
      · split at h
        · split at h
          · cases h
          · rw [show m' = (m.setViewLocal _ _ x).1 from (congrArg Prod.fst (Except.ok.inj h)).symm]
            exact .change (.view _ _ _)
        · exact firstAssignEvolves (assignInEvolves pid fuel) _ _ _ _ _ _ h
    · cases h
      exact .refl

theorem assignNameEvolves (pid : Nat) :
    ∀ (cs : List ContextId) (m : Machine) name x m' b,
      m.assignName cs name x = .ok (m', b) → Evolves pid m m'
  | [], m, name, x, m', b, h => by
    simp only [assignName] at h
    cases h
    exact .refl
  | c :: cs, m, name, x, m', b, h => by
    simp only [assignName] at h
    cases hc : m.contextAssign c name x with
    | error e => simp [hc, bind, Except.bind] at h
    | ok r =>
      obtain ⟨m₁, done⟩ := r
      have first := assignInEvolves pid _ _ _ _ _ _ _ hc
      simp only [hc, bind, Except.bind] at h
      split at h
      · cases h
        exact first
      · exact first.trans (assignNameEvolves pid cs m₁ name x m' b h)

end Machine

namespace Exec

open Machine

theorem keepsControl (k : Control) : Keeps pid (control pid k) := by
  cases k with
  | uncatch =>
    refine keepsBindProc fun m p live found => ?_
    split
    · rename_i q h popped
      exact postSetProcThen live found (.popHandler popped) (keepsPure _)
    · exact .refl
  | throw => exact keepsBind keepsPop fun _ => keepsBind keepsGet fun _ => keepsThrow _
  | terminate | suspend | stop => exact keepsPure _
  | enter =>
    refine keepsBind keepsPop fun v => ?_
    split
    · exact keepsBindProc fun m p live found => postSetProcThen live found (.enter _) (keepsPure _)
    · exact keepsThrow _
  | leave =>
    refine keepsBindTopFrame fun m p f live found top => ?_
    rw [postBind, postProc, found]
    exact postGuard fun above => postSetProcThen live found (.leave f top (by omega)) (keepsPure _)
  | lock =>
    refine keepsBind keepsPop fun note => keepsBind keepsPop fun name => ?_
    cases name with
    | str s =>
      -- the new lock and its held reference change no process
      refine keepsBind (keepsPure _) fun _ => keepsBindGet fun m live => ?_
      rw [postBind, postLiftFault]
      split
      · simp only [addHold]
        rw [postBind, postSet]
        exact (keepsBind (keepsPush _) fun _ => keepsPure _).after live (.change (.outside rfl))
      · exact .refl
    | _ => exact keepsThrowBind _ _

theorem keepsInstr (c : Code) : ∀ op, Keeps pid (instr pid c op)
  | .nop | .label _ => keepsPure _
  | .pushLiteral i => by
    dsimp only [instr]
    split
    · exact keepsBind (keepsPush _) fun _ => keepsPure _
    · exact keepsThrow _
  | .pushLocal i => by
    refine keepsBind (keepsTopFrame pid) fun f => ?_
    split
    · exact keepsBind (keepsPush _) fun _ => keepsPure _
    · exact keepsThrow _
  | .storeLocal i =>
    keepsBind (keepsPeek pid) fun v => keepsBind (keepsStoreLocal i v) fun _ => keepsPure _
  | .popLocal i => keepsBind keepsPop fun v => keepsBind (keepsStoreLocal i v) fun _ => keepsPure _
  | .pushName i => by
    dsimp only [instr]
    split
    · refine keepsBind (keepsPure _) fun _ => keepsBind keepsGet fun _ =>
        keepsBind (keepsProc pid) fun _ => ?_
      split
      · exact keepsBind (keepsPush _) fun _ => keepsPure _
      · exact keepsThrow _
    · exact keepsThrowBind _ _
  | .storeName i => by
    dsimp only [instr]
    split
    · refine keepsBind (keepsPure _) fun _ => keepsBind (keepsPeek pid) fun _ =>
        keepsBind (keepsProc pid) fun _ => keepsBindGet fun m live => ?_
      -- an assignment writes a context, or a local through a view
      rw [postBind, postLiftFault]
      split
      · rename_i r assigned
        have moved := assignNameEvolves pid _ _ _ _ _ _ assigned
        simp only [postBind, postSet, postIte, postPure, postThrow]
        split <;> exact moved
      · exact .refl
    · exact keepsThrowBind _ _
  | .binary op =>
    keepsBind keepsPop fun _ => keepsBind keepsPop fun _ => keepsBind keepsGet fun _ =>
      keepsBind (keepsLiftFault _) fun r => keepsBind (keepsPush r) fun _ => keepsPure _
  | .unary op =>
    keepsBind keepsPop fun _ => keepsBind (keepsLiftFault _) fun r =>
      keepsBind (keepsPush r) fun _ => keepsPure _
  | .drop n =>
    keepsBindProc fun m p live found => postGuard fun above =>
      postSetProcThen live found (.drop n (by omega)) (keepsPure _)
  | .dup d =>
    keepsBindProc fun m p live found => postGuard fun _ => by
      split
      · exact (keepsBind (keepsPush _) fun _ => keepsPure _) m live
      · exact .refl
  | .jump j => keepsBind (keepsJump c j) fun _ => keepsPure _
  | .call args w => keepsBind (keepsCall args w) fun _ => keepsPure _
  | .ret 0 => keepsPure _
  | .ret 1 => keepsBind keepsPop fun _ => keepsPure _
  | .ret (n + 2) => keepsThrow _
  | .control k => keepsControl k

end Exec

namespace Machine

open Exec

theorem stepEvolves (m : Machine) (pid : Nat) : Evolves pid m (m.step pid).1 := by
  unfold step
  dsimp only
  split
  · exact .refl
  · rename_i p found
    split
    · exact .refl
    · rename_i f top
      split
      · exact .refl
      · rename_i op _
        have framed : p.frames ≠ #[] := by
          rintro h
          simp [h] at top
        have moved : Evolves pid m (m.setProc (p.modifyTop fun f => { f with pc := f.pc + 1 })) :=
          .change (.proc found (.retop _ fun _ => rfl))
        have live := moved.live ⟨p, found, framed⟩
        have := keepsInstr (m.codeOrEmpty f.code) op _ live
        rw [postState] at this
        exact moved.trans this

end Machine

end ScriptEngine
