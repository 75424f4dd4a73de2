import ScriptEngine.Proofs.NameResolution
/-!
Making a view of a frame. Below the largest word, a view is made exactly when the level names
a frame of the process, counted from the innermost; the view shows that frame's locals, live,
and the contexts the frame could see. At the largest word the level wraps round and the engine
reads past the end of the frame stack.
-/
namespace ScriptEngine

namespace Machine

variable {m : Machine} {pid level : Nat} {p : Process}

theorem frameContextBelowTop (below : level < 18446744073709551615) :
    m.frameContext pid level = .ok (m.makeFrameContext pid level) := by
  unfold frameContext
  split
  · rw [if_neg (Nat.ne_of_lt below)]
  · rfl

theorem makeFrameContextAbsent (found : m.proc? pid = some p) (deep : p.frames.size ≤ level) :
    m.makeFrameContext pid level = (m, none) := by
  simp [makeFrameContext, found, show level + 1 > p.frames.size by omega]

theorem makeFrameContextMade (found : m.proc? pid = some p) (lt : level < p.frames.size)
    {f : Frame} (at_ : p.frames[p.frames.size - 1 - level]? = some f) :
    ∃ v, m.makeFrameContext pid level = ((m.addContext (.frameView v)).1, some ⟨m.contexts.size⟩) ∧
      v.process = pid ∧ v.frame = f.serial ∧ v.localNames = (m.codeOrEmpty f.code).locals ∧
      v.visible = p.contexts.take (min f.contextTos p.contexts.size) ∧ v.generation = p.generation := by
  have index : p.frames.size - (level + 1) = p.frames.size - 1 - level := by omega
  refine ⟨{ subroutine := (m.codeOrEmpty f.code).name, process := pid, frame := f.serial,
            localNames := (m.codeOrEmpty f.code).locals,
            visible := p.contexts.take (min f.contextTos p.contexts.size),
            generation := p.generation }, ?_, rfl, rfl, rfl, rfl, rfl⟩
  simp [makeFrameContext, found, show ¬level + 1 > p.frames.size by omega, index, at_, addContext]

theorem contextAdded (c : Context) : (m.addContext c).1.context? ⟨m.contexts.size⟩ = some c := by
  simp [addContext, context?]

theorem viewLookup {id : ContextId} {v : FrameView} (at_ : m.context? id = some (.frameView v))
    (valid : m.viewValid v) (name : String) :
    m.contextLookup id name = match v.localNames.findIdx? (· == name) with
      | some i =>
        ((m.proc? v.process).bind fun q => q.frames.find? (·.serial == v.frame)).bind (·.locals[i]?)
      | none => v.visible.reverse.toList.findSome? fun c => m.lookupIn m.contexts.size c name := by
  simp only [contextLookup, contextFuel, lookupIn, at_, valid, Bool.not_true, Bool.false_eq_true,
    if_false]
  cases v.localNames.findIdx? (· == name) with
  | none => rfl
  | some i =>
    rw [viewLocalsOf]
    cases m.proc? v.process with
    | none => rfl
    | some q =>
      simp only [Option.bind_some]
      cases q.frames.find? (·.serial == v.frame) <;> rfl

/-- Below the largest word, making a view never stops the engine. It makes none exactly when the
level is past the innermost frame's depth; otherwise it adds a view of the frame `level` below
the top, which while valid reads a local name of the frame's code from that frame's current
locals, and any other name from the contexts the frame could see, innermost first. -/
theorem frameContextBuildsView (below : level < 18446744073709551615)
    (found : m.proc? pid = some p) :
    m.frameContext pid level = .ok (m.makeFrameContext pid level) ∧
    ((m.makeFrameContext pid level).2 = none ↔ p.frames.size ≤ level) ∧
    ∀ f : Frame, level < p.frames.size → p.frames[p.frames.size - 1 - level]? = some f →
      ∃ v, (m.makeFrameContext pid level).2 = some ⟨m.contexts.size⟩ ∧
        (m.makeFrameContext pid level).1.context? ⟨m.contexts.size⟩ = some (.frameView v) ∧
        v.process = pid ∧ v.frame = f.serial ∧ v.localNames = (m.codeOrEmpty f.code).locals ∧
        v.visible = p.contexts.take (min f.contextTos p.contexts.size) ∧
        v.generation = p.generation ∧
        ∀ (m' : Machine) (name : String), m'.context? ⟨m.contexts.size⟩ = some (.frameView v) →
          m'.viewValid v →
          m'.contextLookup ⟨m.contexts.size⟩ name = match v.localNames.findIdx? (· == name) with
            | some i =>
              ((m'.proc? pid).bind fun q => q.frames.find? (·.serial == f.serial)).bind (·.locals[i]?)
            | none => v.visible.reverse.toList.findSome? fun c => m'.lookupIn m'.contexts.size c name := by
  refine ⟨frameContextBelowTop below, ⟨fun none => ?_, fun deep => ?_⟩, fun f lt at_ => ?_⟩
  · -- a level within the stack names a frame, so a view is made
    by_contra within
    obtain ⟨f, at_⟩ : ∃ f, p.frames[p.frames.size - 1 - level]? = some f :=
      ⟨_, Array.getElem?_eq_getElem (by omega)⟩
    obtain ⟨v, made, -⟩ := makeFrameContextMade found (by omega) at_
    rw [made] at none
    cases none
  · rw [makeFrameContextAbsent found deep]
  · obtain ⟨v, made, process, frame, names, visible, generation⟩ := makeFrameContextMade found lt at_
    refine ⟨v, by rw [made], by rw [made, contextAdded], process, frame, names, visible, generation,
      fun m' name at' valid => ?_⟩
    rw [viewLookup at' valid, process, frame]

/-- A process in a context where x is 1 has entered a unit with the local y; the view of its
top frame reads y from the frame and x from the context. -/
theorem topFrameViewReads :
    let frame : Frame :=
      { code := ⟨0⟩, locals := #[.int 2], index := 0, serial := 0, contextSp := 1,
        contextTos := 1, handlerSp := 0, valueSp := 0, wantResult := false }
    let p : Process := { id := 1, name := "p", frames := #[frame], contexts := #[⟨0⟩] }
    let m : Machine :=
      { codes := #[{ locals := #["y"] }], contexts := #[.bindings { name := "g", vars := [("x", .int 1)] }],
        procs := #[p] }
    0 < 18446744073709551615 ∧ m.proc? 1 = some p ∧
    m.frameContext 1 0 = .ok (m.makeFrameContext 1 0) ∧
    ((m.makeFrameContext 1 0).2 = none ↔ p.frames.size ≤ 0) ∧
    ∀ f : Frame, 0 < p.frames.size → p.frames[p.frames.size - 1 - 0]? = some f →
      ∃ v, (m.makeFrameContext 1 0).2 = some ⟨m.contexts.size⟩ ∧
        (m.makeFrameContext 1 0).1.context? ⟨m.contexts.size⟩ = some (.frameView v) ∧
        v.process = 1 ∧ v.frame = f.serial ∧ v.localNames = (m.codeOrEmpty f.code).locals ∧
        v.visible = p.contexts.take (min f.contextTos p.contexts.size) ∧
        v.generation = p.generation ∧
        ∀ (m' : Machine) (name : String), m'.context? ⟨m.contexts.size⟩ = some (.frameView v) →
          m'.viewValid v →
          m'.contextLookup ⟨m.contexts.size⟩ name = match v.localNames.findIdx? (· == name) with
            | some i =>
              ((m'.proc? 1).bind fun q => q.frames.find? (·.serial == f.serial)).bind (·.locals[i]?)
            | none => v.visible.reverse.toList.findSome? fun c => m'.lookupIn m'.contexts.size c name := by
  intro frame p m
  have found : m.proc? 1 = some p := rfl
  exact ⟨by decide, found, frameContextBuildsView (by decide) found⟩

/-- At the largest word the level wraps round: for a process with one frame, the level below
it answers that there is no such frame, and the largest reads past the end of the stack. -/
theorem topLevelReadsPastEnd :
    let frame : Frame :=
      { code := ⟨0⟩, locals := #[], index := 0, serial := 0, contextSp := 0, contextTos := 0,
        handlerSp := 0, valueSp := 0, wantResult := false }
    let m : Machine :=
      { codes := #[{ instrs := #[.control .suspend] }], procs := #[{ id := 1, name := "p", frames := #[frame] }] }
    (m.frameContext 1 18446744073709551614).toOption.map (·.2) = some none ∧
      m.frameContext 1 18446744073709551615 =
        .error "index out of bounds: the len is 1 but the index is 1" := by
  exact ⟨by decide +kernel, rfl⟩

end Machine

end ScriptEngine
