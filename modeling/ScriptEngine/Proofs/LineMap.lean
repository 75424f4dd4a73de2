import ScriptEngine.Proofs.Appending
/-!
The line map records the line of every emitted instruction. A compiler emits instructions,
through any of the emitters, fills the tables, and gives line numbers, each saying that what is
emitted from then on belongs to that line. Every emitted instruction then finds, at its index,
the line last given before it was emitted, and an index past the end finds the last line given,
as long as the index is below `2^32`: the map is read at a 32-bit index, so a larger one wraps
around to the start of the code. The map stays ascending, and a line number that repeats the
line of the map's last entry adds nothing.
-/
namespace ScriptEngine

/-- What a compiler does to a unit while it emits it: emit an instruction, through one of the
emitters, add to a table, or give the line of what follows. -/
inductive Emission where
  | instr (op : Instr)
  | pushLiteral (v : Value)
  | jump (cond : JumpCondition) (label : Nat)
  | label (l : Nat)
  | literal (v : Value)
  | name (n : String)
  | localVar (n : String)
  | makeLabel
  | line (n : Nat)

namespace Emission

/-- The line in force after an emission, `cur` before it. -/
def lineAfter (cur : Option Nat) : Emission → Option Nat
  | .line n => some n
  | _ => cur

/-- The line in force after emissions from the start: the last line given, if any. -/
def lineInForce (es : List Emission) : Option Nat := es.foldl lineAfter none

end Emission

namespace Code

def emit (c : Code) : Emission → Code
  | .instr op => (c.addInstr op).1
  | .pushLiteral v => (c.addPushLiteral v).1
  | .jump cond l => (c.addJump cond l).1
  | .label l => (c.addLabel l).1
  | .literal v => (c.addLiteral v).1
  | .name n => (c.addName n).1
  | .localVar n => (c.addLocal n).1
  | .makeLabel => c.makeLabel.1
  | .line n => c.addLine n

def emitAll (c : Code) (es : List Emission) : Code := es.foldl emit c

variable {c : Code}

/-! ### The map read at and past the end -/

theorem lineForOfLines {c' : Code} (same : c'.lines = c.lines) (pc : Nat) : c'.lineFor? pc = c.lineFor? pc := by
  rw [lineForFold, lineForFold, same]

theorem lastLineAbove (pc : Nat) : ∀ (l : List (Nat × Nat)) (start : Option Nat), (∀ e ∈ l, e.1 ≤ pc) →
    l.foldl (lastLine pc) start = (l.getLast?.map Prod.snd).or start
  | [], _, _ => rfl
  | x :: l, start, below => by
    rw [List.foldl_cons, lastLineAbove pc l _ fun e mem => below e (List.mem_cons_of_mem x mem),
      List.getLast?_cons, lastLine, if_pos (below x List.mem_cons_self)]
    cases l.getLast? <;> rfl

theorem lastLineBelow {pc : Nat} (l : List (Nat × Nat)) {x : Nat × Nat} (above : pc < x.1) (start : Option Nat) :
    (l ++ [x]).foldl (lastLine pc) start = l.foldl (lastLine pc) start := by
  rw [List.foldl_append, List.foldl_cons, List.foldl_nil, lastLine, if_neg (Nat.not_le_of_lt above)]

theorem lineForPastEnd (wf : c.WellFormed) {pc : Nat} (past : c.size ≤ pc) (small : pc < 4294967296) :
    c.lineFor? pc = c.lines.back?.map Prod.snd := by
  rw [lineForFold, Nat.mod_eq_of_lt small, ← Array.getLast?_toList,
    lastLineAbove pc _ _ fun e mem => Nat.le_trans (wf.lines.bounded e mem) past, Option.or_none]

/-! ### One emission -/

theorem addLineBack (n : Nat) : (c.addLine n).lines.back?.map Prod.snd = some n := by
  unfold addLine
  rcases last : c.lines.back? with _ | ⟨p, l⟩
  · simp
  · by_cases same : p = c.instrs.size
    · simp [same]
    · by_cases old : l = n
      · simp [same, old, last]
      · simp [same, old]

theorem addLineRepeat {n : Nat} (repeated : c.lines.back?.map Prod.snd = some n) : c.addLine n = c := by
  obtain ⟨⟨p, l⟩, last, rfl⟩ := Option.map_eq_some_iff.mp repeated
  unfold addLine
  simp only [last]
  by_cases same : p = c.instrs.size
  · -- the last entry is overwritten by itself
    subst same
    have restored : c.lines.pop.push (c.instrs.size, l) = c.lines := by
      apply Array.toList_inj.mp
      obtain ⟨init, split⟩ := List.getLast?_eq_some_iff.mp (by rw [Array.getLast?_toList]; exact last)
      rw [Array.toList_push, Array.toList_pop, split, List.dropLast_concat]
    rw [if_pos (beq_self_eq_true _), restored]
  · simp [same]

theorem addLineBefore (n : Nat) {i : Nat} (inside : i < c.size) :
    (c.addLine n).lineFor? i = c.lineFor? i := by
  rcases addLineLines (c := c) n with same | merged
  · exact lineForOfLines same i
  · have above : i % 4294967296 < c.size := Nat.lt_of_le_of_lt (Nat.mod_le i _) inside
    rw [lineForFold, lineForFold, merged, mergeLineLast, lastLineBelow _ above]

theorem emitWellFormed (wf : c.WellFormed) : ∀ e : Emission, (c.emit e).WellFormed
  | .instr op => addInstrWellFormed wf op
  | .pushLiteral v => addPushLiteralWellFormed wf v
  | .jump _ _ => addInstrWellFormed wf _
  | .label _ => addInstrWellFormed wf _
  | .literal v => addLiteralWellFormed wf v
  | .name n => wf.ofBody (addNameTables wf.tables n) (addNameBody n)
  | .localVar n => wf.ofBody (addLocalTables wf.tables n) (addLocalBody n)
  | .makeLabel => makeLabelWellFormed wf
  | .line n => addLineWellFormed wf n

theorem emitOther : ∀ e : Emission, (∀ n, e ≠ .line n) →
    (c.emit e).lines = c.lines ∧ c.size ≤ (c.emit e).size ∧ (c.emit e).size ≤ c.size + 1
  | .instr op, _ | .jump _ _, _ | .label _, _ => ⟨rfl, by simp [emit, addInstr, addJump, addLabel, size]⟩
  | .pushLiteral v, _ => by
    have body := addLiteralBody (c := c) v
    simp only [emit, addPushLiteral]
    rcases found : c.addLiteral v with ⟨c', _ | i⟩ <;> rw [found] at body <;> dsimp only
    · have instrs : c'.instrs = c.instrs := body.instrs
      exact ⟨body.lines, by simp [size, instrs]⟩
    · have instrs : c'.instrs = c.instrs := body.instrs
      exact ⟨body.lines, by simp [addInstr, size, instrs]⟩
  | .literal v, _ => ⟨(addLiteralBody v).lines, by simp [emit, size, (addLiteralBody v).instrs]⟩
  | .name n, _ => ⟨(addNameBody n).lines, by simp [emit, size, (addNameBody n).instrs]⟩
  | .localVar n, _ => ⟨(addLocalBody n).lines, by simp [emit, size, (addLocalBody n).instrs]⟩
  | .makeLabel, _ => ⟨makeLabelBody.2, by simp [emit, size, makeLabelBody.1]⟩
  | .line n, other => absurd rfl (other n)

theorem emitLineSize (n : Nat) : (c.emit (.line n)).size = c.size := by
  rw [emit, addLineKeeps]
  rfl

theorem emitGrows (e : Emission) : c.size ≤ (c.emit e).size := by
  by_cases line : ∃ n, e = .line n
  · obtain ⟨n, rfl⟩ := line
    exact Nat.le_of_eq (emitLineSize n).symm
  · exact (emitOther e (by simpa using line)).2.1

theorem emitBefore (e : Emission) {i : Nat} (inside : i < c.size) :
    (c.emit e).lineFor? i = c.lineFor? i := by
  by_cases line : ∃ n, e = .line n
  · obtain ⟨n, rfl⟩ := line
    exact addLineBefore n inside
  · exact lineForOfLines (emitOther e (by simpa using line)).1 i

theorem emitBack (e : Emission) :
    (c.emit e).lines.back?.map Prod.snd = Emission.lineAfter (c.lines.back?.map Prod.snd) e := by
  by_cases line : ∃ n, e = .line n
  · obtain ⟨n, rfl⟩ := line
    exact addLineBack n
  · have other : ∀ n, e ≠ .line n := by simpa using line
    rw [(emitOther e other).1]
    cases e with
    | line n => exact absurd rfl (other n)
    | _ => rfl

/-! ### Runs of emissions -/

theorem emitAllAppend (c : Code) (es es' : List Emission) : c.emitAll (es ++ es') = (c.emitAll es).emitAll es' :=
  List.foldl_append

theorem emitAllSnoc (c : Code) (es : List Emission) (e : Emission) : c.emitAll (es ++ [e]) = (c.emitAll es).emit e := by
  rw [emitAll, emitAll, List.foldl_append, List.foldl_cons, List.foldl_nil]

theorem emitAllWellFormed : ∀ {c : Code} (es : List Emission), c.WellFormed → (c.emitAll es).WellFormed
  | _, [], wf => wf
  | _, e :: es, wf => emitAllWellFormed es (emitWellFormed wf e)

theorem emitAllBefore : ∀ {c : Code} (es : List Emission) {i : Nat}, i < c.size →
    (c.emitAll es).lineFor? i = c.lineFor? i
  | _, [], _, _ => rfl
  | _, e :: es, _, inside => by
    rw [emitAll, List.foldl_cons, ← emitAll, emitAllBefore es (Nat.lt_of_lt_of_le inside (emitGrows e)),
      emitBefore e inside]

theorem emitAllBack : ∀ (c : Code) (es : List Emission),
    (c.emitAll es).lines.back?.map Prod.snd = es.foldl Emission.lineAfter (c.lines.back?.map Prod.snd)
  | _, [] => rfl
  | c, e :: es => by
    rw [emitAll, List.foldl_cons, ← emitAll, emitAllBack (c.emit e) es, emitBack, List.foldl_cons]

theorem emitAllLineInForce (es : List Emission) :
    (empty.emitAll es).lines.back?.map Prod.snd = Emission.lineInForce es :=
  emitAllBack empty es

/-- The line map records the line of every emitted instruction: an instruction emitted after
emissions `pre` finds at its index the line last given in `pre`, and an index past the end the
line last given overall, both below `2^32`; the map stays ascending; and giving the line of
its last entry again adds nothing. -/
theorem lineMapRecordsEmission (es : List Emission) :
    (∀ pre e post, es = pre ++ e :: post →
      (empty.emitAll (pre ++ [e])).size = (empty.emitAll pre).size + 1 →
      (empty.emitAll pre).size < 4294967296 →
        (empty.emitAll es).lineFor? (empty.emitAll pre).size = Emission.lineInForce pre) ∧
    (∀ pc, (empty.emitAll es).size ≤ pc → pc < 4294967296 →
      (empty.emitAll es).lineFor? pc = Emission.lineInForce es) ∧
    Ascending (empty.emitAll es).lines.toList ∧
    (∀ pre n post, es = pre ++ .line n :: post → (empty.emitAll pre).lines.back?.map Prod.snd = some n →
      empty.emitAll (pre ++ [.line n]) = empty.emitAll pre) := by
  have wf : ∀ es, (empty.emitAll es).WellFormed := fun es => emitAllWellFormed es emptyWellFormed
  refine ⟨fun pre e post split grew small => ?_, fun pc past small => ?_, (wf es).lines.ascending,
    fun pre n post _ repeated => ?_⟩
  · -- the instruction takes the line in force, and later emissions leave it
    rw [emitAllSnoc] at grew
    have other : ∀ n, e ≠ .line n := by
      rintro n rfl
      rw [emitLineSize] at grew
      omega
    have inside : (empty.emitAll pre).size < (empty.emitAll (pre ++ [e])).size := by
      rw [emitAllSnoc, grew]
      exact Nat.lt_succ_self _
    rw [split, List.append_cons, emitAllAppend, emitAllBefore post inside, emitAllSnoc,
      lineForOfLines (emitOther e other).1, lineForPastEnd (wf pre) (Nat.le_refl _) small, emitAllLineInForce]
  · rw [lineForPastEnd (wf es) past small, emitAllLineInForce]
  · rw [emitAllSnoc, emit, addLineRepeat repeated]

/-- A listing given line 10, two instructions, line 10 again, one more, then lines 12 and 13
with nothing between them, and a last instruction: that one is on line 13, as is every index
past the end, and the map holds two entries. -/
theorem lineMapOfListing :
    let pre : List Emission := [.line 10, .instr .nop, .instr .nop, .line 10, .instr .nop, .line 12, .line 13]
    let es := pre ++ [.instr .nop]
    (empty.emitAll es).lineFor? 3 = some 13 ∧ (empty.emitAll es).lineFor? 100 = some 13 ∧
      (empty.emitAll es).lines = #[(0, 10), (3, 13)] := by
  intro pre es
  obtain ⟨emitted, past, -, -⟩ := lineMapRecordsEmission es
  refine ⟨emitted pre (.instr .nop) [] rfl (by decide +kernel) (by decide +kernel),
    past 100 (by decide +kernel) (by decide), by decide +kernel⟩

/-- Index `2^32`, past the end of two instructions, is read as index 0. -/
theorem lineForWrapsPastEnd :
    let es : List Emission := [.line 1, .instr .nop, .line 2, .instr .nop]
    Emission.lineInForce es = some 2 ∧ (empty.emitAll es).size = 2 ∧
      (empty.emitAll es).lineFor? 4294967296 = some 1 := by
  decide +kernel

end Code

end ScriptEngine
