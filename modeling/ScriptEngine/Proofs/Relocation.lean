import ScriptEngine.Proofs.Appending
/-!
Relocation resolves every label. Each `label L` of a unit becomes a `nop` where it stands, and
each jump by label `L` a jump by index, with the same condition and pop flag, to the last
`label L` of the unit, or to the end of the code when no instruction is `label L` (a label that
was never allocated included). Nothing else moves: the size and every other instruction, the
tables and the line map stay, no label stays allocated, the unit needs no more relocating, and
relocating it again changes nothing.
-/
namespace ScriptEngine

namespace Instr

/-- A label, or a jump that still names its target by label. -/
def byLabel : Instr → Bool
  | .label _ => true
  | .jump j => j.symbolic
  | _ => false

end Instr

namespace Code

/-- Where a jump by label `L` lands in `c`: at the last `label L`, or at the end of the code when
no instruction is `label L`. -/
def LabelTarget (c : Code) (L t : Nat) : Prop :=
  (c.instr? t = some (.label L) ∧ ∀ i, t < i → c.instr? i ≠ some (.label L)) ∨
    (t = c.size ∧ ∀ i, c.instr? i ≠ some (.label L))

theorem LabelTarget.unique {c : Code} {L t t' : Nat} (h : c.LabelTarget L t)
    (h' : c.LabelTarget L t') : t = t' := by
  rcases h with ⟨at_t, last⟩ | ⟨rfl, none⟩ <;> rcases h' with ⟨at_t', last'⟩ | ⟨rfl, none'⟩
  · rcases Nat.lt_trichotomy t t' with lt | same | gt
    · exact absurd at_t' (last t' lt)
    · exact same
    · exact absurd at_t (last' t gt)
  · exact absurd at_t (none' t)
  · exact absurd at_t' (none t')
  · rfl

variable {c : Code}

theorem zipIdxAscending (l : List Instr) : l.zipIdx.Pairwise fun a b => a.2 < b.2 := by
  have ascending := List.pairwise_lt_range' (s := 0) (n := l.length) 1
  rw [← List.zipIdx_map_snd 0 l] at ascending
  exact List.pairwise_map.mp ascending

theorem labelAddressesTarget (c : Code) (L : Nat) :
    c.LabelTarget L ((labelAddresses c.instrs)[L]?.getD c.size) := by
  rw [labelAddressesFold, placeLabelLast, Std.HashMap.getElem?_empty, Option.or_none]
  have labelled : ∀ i, c.instr? i = some (.label L) ↔
      (Instr.label L, i) ∈ c.instrs.toList.zipIdx.filter (·.1 == .label L) := fun i => by
    simp [List.mem_filter, List.mk_mem_zipIdx_iff_getElem?, instr?]
  have onlyLabels : ∀ x ∈ c.instrs.toList.zipIdx.filter (·.1 == .label L), x.1 = .label L :=
    fun x mem => by simpa using (List.mem_filter.mp mem).2
  have ordered := (zipIdxAscending c.instrs.toList).filter (·.1 == .label L)
  generalize c.instrs.toList.zipIdx.filter (·.1 == .label L) = found at labelled onlyLabels ordered
  rcases last : found.getLast? with _ | ⟨op, t⟩
  · -- no instruction is `label L`
    refine .inr ⟨rfl, fun i at_i => ?_⟩
    rw [List.getLast?_eq_none_iff.mp last] at labelled
    simpa using (labelled i).mp at_i
  · obtain ⟨init, rfl⟩ := List.getLast?_eq_some_iff.mp last
    obtain rfl : op = .label L := onlyLabels (op, t) (by simp)
    simp only [Option.map_some, Option.getD_some]
    refine .inl ⟨(labelled t).mpr (by simp), fun i later at_i => ?_⟩
    -- a later `label L` would have been found before the last one
    rcases List.mem_append.mp ((labelled i).mp at_i) with earlier | same
    · have := (List.pairwise_append.mp ordered).2.2 _ earlier (.label L, t) (by simp)
      simp only at this
      omega
    · simp only [List.mem_singleton, Prod.mk.injEq, true_and] at same
      omega

theorem relocateSize (c : Code) : c.relocate.size = c.size := by
  simp [relocate, size]

theorem relocateLabel {pc L : Nat} (at_pc : c.instr? pc = some (.label L)) :
    c.relocate.instr? pc = some .nop := by
  simp only [instr?] at at_pc ⊢
  simp [relocate, at_pc]

theorem relocateResolvesJump {pc : Nat} {j : Jump} (at_pc : c.instr? pc = some (.jump j))
    (symbolic : j.symbolic = true) :
    ∃ t, c.LabelTarget j.target t ∧ c.relocate.instr? pc = some (.jump ⟨j.condition, j.pop, false, t⟩) :=
  ⟨_, labelAddressesTarget c j.target, relocateJump at_pc symbolic⟩

theorem relocateKeeps {pc : Nat} {op : Instr} (at_pc : c.instr? pc = some op) (settled : op.byLabel = false) :
    c.relocate.instr? pc = some op := by
  simp only [instr?] at at_pc ⊢
  cases op <;> simp_all [relocate, Instr.byLabel]

theorem needsRelocationFalse :
    c.needsRelocation = false ↔ c.labelCount = 0 ∧ ∀ pc op, c.instr? pc = some op → op.byLabel = false := by
  simp only [needsRelocation, Bool.or_eq_false_iff, decide_eq_false_iff_not, Nat.not_lt,
    Nat.le_zero, Array.any_eq_false, instr?, Array.getElem?_eq_some_iff, Bool.not_eq_true]
  constructor
  · rintro ⟨none, each⟩
    exact ⟨none, fun pc op ⟨inside, at_pc⟩ => at_pc ▸ each pc inside⟩
  · rintro ⟨none, each⟩
    exact ⟨none, fun pc inside => each pc _ ⟨inside, rfl⟩⟩

theorem relocateSettled (c : Code) : c.relocate.needsRelocation = false := by
  refine needsRelocationFalse.mpr ⟨rfl, fun pc op at_pc => ?_⟩
  simp only [instr?, relocate, Array.getElem?_map] at at_pc
  obtain ⟨old, -, rfl⟩ := Option.map_eq_some_iff.mp at_pc
  cases old with
  | jump j => by_cases symbolic : j.symbolic = true <;> simp [symbolic, Instr.byLabel]
  | _ => rfl

theorem relocateOfSettled (settled : ∀ pc op, c.instr? pc = some op → op.byLabel = false) :
    c.relocate = { c with labelCount := 0 } := by
  have same : c.relocate.instrs = c.instrs := Array.ext_getElem? fun pc => by
    rcases at_pc : c.instrs[pc]? with _ | op
    · simp [relocate, at_pc]
    · exact relocateKeeps at_pc (settled pc op at_pc)
  show { c with instrs := c.relocate.instrs, labelCount := 0 } = _
  rw [same]

theorem relocateTwice (c : Code) : c.relocate.relocate = c.relocate :=
  relocateOfSettled (needsRelocationFalse.mp (relocateSettled c)).2

/-- Relocation resolves every label: labels become `nop`, jumps by label become jumps by index
to where the label lands, with their condition and pop flag, and every other instruction, the
size, the tables and the line map stay; afterwards no label is allocated or referred to, so
relocating again changes nothing. -/
theorem relocateResolves (c : Code) :
    c.relocate.size = c.size ∧
      (∀ pc L, c.instr? pc = some (.label L) → c.relocate.instr? pc = some .nop) ∧
      (∀ pc j, c.instr? pc = some (.jump j) → j.symbolic = true → ∃ t, c.LabelTarget j.target t ∧
        c.relocate.instr? pc = some (.jump ⟨j.condition, j.pop, false, t⟩)) ∧
      (∀ pc op, c.instr? pc = some op → op.byLabel = false → c.relocate.instr? pc = some op) ∧
      c.relocate = { c with instrs := c.relocate.instrs, labelCount := 0 } ∧
      c.relocate.needsRelocation = false ∧ c.relocate.relocate = c.relocate :=
  ⟨relocateSize c, fun _ _ => relocateLabel, fun _ _ => relocateResolvesJump, fun _ _ => relocateKeeps, rfl,
    relocateSettled c, relocateTwice c⟩

end Code

end ScriptEngine
