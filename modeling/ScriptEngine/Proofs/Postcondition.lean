import ScriptEngine.Machine.Run
/-!
Reasoning about instructions. `Exec.Post x m ok err` says what holds after running `x` from
engine state `m`: `ok` of the answer and the state it leaves, or `err` of the fault and the
state reached when it was raised. The lemmas push `Post` through binds and through each
primitive the instructions are written with, so an instruction is taken apart by `simp`
and the cases it splits into. The process table comes first: a process is found and
replaced by its id, and the first process of an id is the one both use.
-/
namespace ScriptEngine

namespace Machine

theorem findModifyAt {l : List Process} {pid i : Nat} (q : Nat) (f : Process → Process)
    (keep : ∀ p : Process, p.id = pid → (f p).id = pid)
    (at_ : l.findIdx? (fun p : Process => p.id == pid) = some i) :
    (l.modify i f).find? (fun p : Process => p.id == q) =
      if q = pid then (l.find? (fun p : Process => p.id == pid)).map f
      else l.find? (fun p : Process => p.id == q) := by
  induction l generalizing i with
  | nil => simp at at_
  | cons a l ih =>
    by_cases ha : a.id = pid
    · have hi : i = 0 := by simpa [List.findIdx?_cons, ha] using at_.symm
      subst hi
      have hfa : (f a).id = pid := keep a ha
      by_cases hq : q = pid
      · subst hq
        simp [List.modify_zero_cons, hfa, ha]
      · have hne : (pid == q) = false := by simpa using Ne.symm hq
        simp [List.modify_zero_cons, hfa, ha, hne, hq]
    · have hpid : (a.id == pid) = false := by simpa using ha
      have shifted : (l.findIdx? (fun p : Process => p.id == pid)).map (· + 1) = some i := by
        rw [← at_, List.findIdx?_cons, hpid]
        rfl
      obtain ⟨j, hj, rfl⟩ := Option.map_eq_some_iff.mp shifted
      by_cases hq : a.id = q
      · have : q ≠ pid := fun h => ha (hq.trans h)
        have hq' : (a.id == q) = true := by simpa using hq
        simp [List.modify_succ_cons, hq', this]
      · have hq' : (a.id == q) = false := by simpa using hq
        simp only [List.modify_succ_cons, List.find?_cons, hq', hpid, ih hj]

theorem procModifyProc (m : Machine) (pid q : Nat) (f : Process → Process)
    (keep : ∀ p : Process, p.id = pid → (f p).id = pid) :
    (m.modifyProc pid f).proc? q = if q = pid then (m.proc? pid).map f else m.proc? q := by
  rcases m with ⟨codes, contexts, contextLive, hostContexts, locks, holds, ⟨l⟩⟩
  simp only [modifyProc, procIndex?, proc?, List.findIdx?_toArray]
  split
  · rename_i i hi
    simpa using findModifyAt q f keep hi
  · rename_i hnone
    have absent : l.find? (fun p : Process => p.id == pid) = none :=
      List.find?_eq_none.mpr (by simpa [List.findIdx?_eq_none_iff] using hnone)
    by_cases hq : q = pid
    · subst hq
      simp [absent]
    · simp [hq]

@[simp] theorem procSetProcSelf (m : Machine) (p : Process) :
    (m.setProc p).proc? p.id = (m.proc? p.id).map fun _ => p := by
  simp [setProc, procModifyProc m p.id p.id (fun _ => p) (fun _ _ => rfl)]

theorem procSetProcOther (m : Machine) (p : Process) {q : Nat} (other : q ≠ p.id) :
    (m.setProc p).proc? q = m.proc? q := by
  simp [setProc, procModifyProc m p.id q (fun _ => p) (fun _ _ => rfl), other]

theorem procSetProc (m : Machine) (p : Process) (q : Nat) :
    (m.setProc p).proc? q = if q = p.id then (m.proc? p.id).map (fun _ => p) else m.proc? q :=
  procModifyProc m p.id q (fun _ => p) (fun _ _ => rfl)

theorem procIdOf {m : Machine} {pid : Nat} {p : Process} (h : m.proc? pid = some p) :
    p.id = pid := by
  simpa using Array.find?_some h

theorem procSetFound {m : Machine} {pid : Nat} {p q : Process} (found : m.proc? pid = some p)
    (same : q.id = pid) : (m.setProc q).proc? pid = some q := by
  rw [← same, procSetProcSelf, same, found]
  rfl

end Machine

namespace Exec

/-- What holds after running `x` from `m`: `ok` of the answer and the final state, or
`err` of the fault and the state reached when it was raised. -/
def Post {α : Type} (x : Exec α) (m : Machine) (ok : α → Machine → Prop)
    (err : Fault → Machine → Prop) : Prop :=
  match x.run m with
  | (.ok a, m') => ok a m'
  | (.error e, m') => err e m'

variable {α β : Type} {m : Machine} {ok : β → Machine → Prop} {err : Fault → Machine → Prop}

theorem runBind (x : Exec α) (f : α → Exec β) (m : Machine) :
    (x >>= f).run m = match x.run m with
      | (.ok a, s) => (f a).run s
      | (.error e, s) => (.error e, s) := by
  simp only [bind, ExceptT.bind, ExceptT.mk, ExceptT.bindCont, StateT.bind, ExceptT.run]
  rcases x m with ⟨_ | _, s⟩ <;> rfl

@[simp] theorem postPure (a : β) : Post (pure a) m ok err ↔ ok a m := Iff.rfl

@[simp] theorem postThrow (e : Fault) : Post (throw e : Exec β) m ok err ↔ err e m := Iff.rfl

@[simp] theorem postBind (x : Exec α) (f : α → Exec β) :
    Post (x >>= f) m ok err ↔ Post x m (fun a m' => Post (f a) m' ok err) err := by
  unfold Post
  rw [runBind]
  rcases ExceptT.run x m with ⟨_ | _, m'⟩ <;> rfl

@[simp] theorem postIte (c : Prop) [Decidable c] (x y : Exec β) :
    Post (if c then x else y) m ok err ↔ if c then Post x m ok err else Post y m ok err := by
  split <;> rfl

@[simp] theorem postGet {ok : Machine → Machine → Prop} :
    Post (get : Exec Machine) m ok err ↔ ok m m := Iff.rfl

@[simp] theorem postSet (m' : Machine) {ok : PUnit → Machine → Prop} :
    Post (set m' : Exec PUnit) m ok err ↔ ok ⟨⟩ m' := Iff.rfl

@[simp] theorem postModify (g : Machine → Machine) {ok : PUnit → Machine → Prop} :
    Post (modify g : Exec PUnit) m ok err ↔ ok ⟨⟩ (g m) := Iff.rfl

@[simp] theorem postDiscard (x : Exec α) {ok : PUnit → Machine → Prop} :
    Post (discard x) m ok err ↔ Post x m (fun _ m' => ok ⟨⟩ m') err := by
  rw [discard, map_const, Function.comp_apply, map_eq_pure_bind, postBind]
  rfl

theorem Post.mono {x : Exec β} {ok' : β → Machine → Prop} {err' : Fault → Machine → Prop}
    (h : Post x m ok err) (hok : ∀ a m', ok a m' → ok' a m')
    (herr : ∀ e m', err e m' → err' e m') : Post x m ok' err' := by
  unfold Post at *
  split at h <;> simp_all

/-! Primitives. -/

@[simp] theorem postProc (pid : Nat) {ok : Process → Machine → Prop} :
    Post (proc pid) m ok err ↔ match m.proc? pid with
      | some p => ok p m
      | none => err (.runtimeError .noActiveFrame) m := by
  unfold proc
  simp only [postBind, postGet]
  cases m.proc? pid <;> simp only [postPure, postThrow]

@[simp] theorem postSetProc (p : Process) {ok : PUnit → Machine → Prop} :
    Post (setProc p) m ok err ↔ ok ⟨⟩ (m.setProc p) := Iff.rfl

@[simp] theorem postLiftFault (r : Except Fault β) :
    Post (liftFault r) m ok err ↔ match r with
      | .ok a => ok a m
      | .error e => err e m := by
  cases r <;> rfl

@[simp] theorem postTopFrame (pid : Nat) {ok : Frame → Machine → Prop} :
    Post (topFrame pid) m ok err ↔ match m.proc? pid with
      | some p => match p.frames.back? with
        | some f => ok f m
        | none => err (.runtimeError .noActiveFrame) m
      | none => err (.runtimeError .noActiveFrame) m := by
  unfold topFrame
  simp only [postBind, postProc]
  split
  · split <;> simp_all
  · rfl

/-! Successful runs, taken apart one bind at a time. -/

variable {m' : Machine}

theorem runBindOk {x : Exec α} {f : α → Exec β} {b : β}
    (h : (x >>= f).run m = (.ok b, m')) :
    ∃ a m₁, x.run m = (.ok a, m₁) ∧ (f a).run m₁ = (.ok b, m') := by
  rw [runBind] at h
  rcases hx : x.run m with ⟨_ | a, m₁⟩
  · rw [hx] at h
    cases h
  · rw [hx] at h
    exact ⟨a, m₁, rfl, h⟩

theorem runGuardOk {c : Prop} [Decidable c] {e : Fault} {k : Unit → Exec β} {b : β}
    (h : (if c then throw e >>= k else k ()).run m = (.ok b, m')) :
    ¬c ∧ (k ()).run m = (.ok b, m') := by
  by_cases hc : c
  · rw [if_pos hc] at h
    obtain ⟨_, _, thrown, _⟩ := runBindOk h
    cases thrown
  · rw [if_neg hc] at h
    exact ⟨hc, h⟩

theorem runProcOk {pid : Nat} {p : Process} (h : (proc pid).run m = (.ok p, m')) :
    m.proc? pid = some p ∧ m' = m := by
  unfold proc at h
  obtain ⟨m₀, m₁, got, rest⟩ := runBindOk h
  cases got
  split at rest
  · rename_i p' found
    cases rest
    exact ⟨found, rfl⟩
  · cases rest

theorem runLiftFaultOk {r : Except Fault α} {a : α} (h : (liftFault r).run m = (.ok a, m')) :
    r = .ok a ∧ m' = m := by
  cases r with
  | error e => cases h
  | ok a' => cases h; exact ⟨rfl, rfl⟩

end Exec

end ScriptEngine
