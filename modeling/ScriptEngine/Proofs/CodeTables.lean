import Std.Data.HashMap.Lemmas
import ScriptEngine.Host.Building
import ScriptEngine.Code.Layout
/-!
The tables of a code unit. Whatever steps build a unit, successful or refused: its literal
pool holds no two entries that are the same literal, its names are distinct and the name
index finds exactly each name's position, its locals are distinct, every table stays within
its limit, and its line map runs over strictly ascending instruction indices, none past the
end of the code. Adding a literal, name or local the unit already has answers the existing
index and changes nothing. The line map is the part that moves: recording a line merges it
into the last entry, compaction moves entries to the instructions that remain, and appending
a unit shifts its map behind the first.
-/
namespace ScriptEngine

namespace Value

theorem sameLiteralComm (a b : Value) : a.sameLiteral b = b.sameLiteral a := by
  cases a <;> cases b <;> simp [sameLiteral, Bool.beq_comm]

theorem sameLiteralTrans {a b c : Value} (ab : a.sameLiteral b = true) (bc : b.sameLiteral c = true) :
    a.sameLiteral c = true := by
  cases a <;> cases b <;> simp [sameLiteral] at ab <;> cases c <;> simp_all [sameLiteral]

end Value

namespace Code

/-- Line entries in strictly ascending order of instruction. -/
def Ascending (lines : List (Nat × Nat)) : Prop := (lines.map Prod.fst).Pairwise (· < ·)

/-- A line map for `size` instructions: ascending, no entry past the end of the code. -/
structure LinesOk (lines : List (Nat × Nat)) (size : Nat) : Prop where
  ascending : Ascending lines
  bounded : ∀ e ∈ lines, e.1 ≤ size

/-- The literal pool, names and locals of a unit: no repeated entry, a name index that finds
each name at its position, every table within its limit, and labels within theirs. -/
structure TablesOk (c : Code) : Prop where
  literals : c.literals.toList.Pairwise fun a b => a.sameLiteral b = false
  nameIndex : ∀ (n : String) (i : Nat), c.nameIndex[n]? = some i ↔ c.names[i]? = some n
  locals : c.locals.toList.Nodup
  literalsFit : c.literals.size ≤ tableLimit
  namesFit : c.names.size ≤ tableLimit
  localsFit : c.locals.size ≤ tableLimit
  labelsFit : c.labelCount ≤ labelLimit

/-- A unit whose tables are sound and whose line map fits its code. -/
structure WellFormed (c : Code) : Prop where
  tables : c.TablesOk
  lines : LinesOk c.lines.toList c.size

variable {c c' : Code}

theorem TablesOk.congr (ok : c.TablesOk) (literals : c'.literals = c.literals) (names : c'.names = c.names)
    (index : c'.nameIndex = c.nameIndex) (locals : c'.locals = c.locals)
    (labels : c'.labelCount ≤ c.labelCount) : c'.TablesOk where
  literals := literals ▸ ok.literals
  nameIndex := names ▸ index ▸ ok.nameIndex
  locals := locals ▸ ok.locals
  literalsFit := literals ▸ ok.literalsFit
  namesFit := names ▸ ok.namesFit
  localsFit := locals ▸ ok.localsFit
  labelsFit := Nat.le_trans labels ok.labelsFit

theorem LinesOk.grow {lines : List (Nat × Nat)} {n n' : Nat} (ok : LinesOk lines n) (more : n ≤ n') :
    LinesOk lines n' :=
  ⟨ok.ascending, fun e mem => Nat.le_trans (ok.bounded e mem) more⟩

theorem TablesOk.namesDistinct (ok : c.TablesOk) : c.names.toList.Nodup := by
  refine List.pairwise_iff_getElem.mpr fun i j hi hj lt same => ?_
  simp only [Array.length_toList, Array.getElem_toList] at hi hj same
  have atI := (ok.nameIndex c.names[j] i).mpr (by rw [← same]; exact Array.getElem?_eq_getElem hi)
  have atJ := (ok.nameIndex c.names[j] j).mpr (Array.getElem?_eq_getElem hj)
  exact Nat.ne_of_lt lt (Option.some.inj (atI.symm.trans atJ))

theorem emptyWellFormed : Code.empty.WellFormed :=
  ⟨⟨by simp [empty], fun n i => by simp [empty], by simp [empty], by simp [empty, tableLimit],
    by simp [empty, tableLimit], by simp [empty, tableLimit], by simp [empty, labelLimit]⟩,
    ⟨by simp [empty, Ascending], by simp [empty]⟩⟩

/-- `c'` has the instructions, line map and labels of `c`: only its tables may differ. -/
structure SameBody (c c' : Code) : Prop where
  instrs : c'.instrs = c.instrs
  lines : c'.lines = c.lines
  labels : c'.labelCount = c.labelCount

theorem SameBody.refl (c : Code) : SameBody c c := ⟨rfl, rfl, rfl⟩

theorem SameBody.trans {c'' : Code} (h : SameBody c c') (h' : SameBody c' c'') : SameBody c c'' :=
  ⟨h'.instrs.trans h.instrs, h'.lines.trans h.lines, h'.labels.trans h.labels⟩

theorem WellFormed.ofBody (wf : c.WellFormed) (tables : c'.TablesOk) (body : SameBody c c') :
    c'.WellFormed :=
  ⟨tables, by rw [body.lines, size, body.instrs]; exact wf.lines⟩

/-! ### The tables

Adding a literal, name or local answers an entry the table already has, refuses when the
table is full, or puts the new entry last. Each fact below is read off these three cases. -/

theorem addLiteralCases (c : Code) (v : Value) :
    (∃ i, c.literals.findIdx? (fun w => w.sameLiteral v) = some i ∧ c.addLiteral v = (c, .ok i)) ∨
    (c.literals.findIdx? (fun w => w.sameLiteral v) = none ∧ tableLimit ≤ c.literals.size ∧
      c.addLiteral v = (c, .error .literals)) ∨
    (c.literals.findIdx? (fun w => w.sameLiteral v) = none ∧ c.literals.size < tableLimit ∧
      c.addLiteral v = ({ c with literals := c.literals.push v }, .ok c.literals.size)) := by
  rcases found : c.literals.findIdx? (fun w => w.sameLiteral v) with _ | i
  · by_cases full : tableLimit ≤ c.literals.size
    · exact .inr (.inl ⟨found, full, by rw [addLiteral, found]; exact if_pos full⟩)
    · exact .inr (.inr ⟨found, Nat.lt_of_not_le full, by rw [addLiteral, found]; exact if_neg full⟩)
  · exact .inl ⟨i, found, by rw [addLiteral, found]⟩

theorem addNameCases (c : Code) (n : String) :
    (∃ i, c.nameIndex[n]? = some i ∧ c.addName n = (c, .ok i)) ∨
    (c.nameIndex[n]? = none ∧ tableLimit ≤ c.names.size ∧ c.addName n = (c, .error .names)) ∨
    (c.nameIndex[n]? = none ∧ c.names.size < tableLimit ∧
      c.addName n = ({ c with names := c.names.push n, nameIndex := c.nameIndex.insert n c.names.size },
        .ok c.names.size)) := by
  rcases found : c.nameIndex[n]? with _ | i
  · by_cases full : tableLimit ≤ c.names.size
    · exact .inr (.inl ⟨rfl, full, by rw [addName, found]; exact if_pos full⟩)
    · exact .inr (.inr ⟨rfl, Nat.lt_of_not_le full, by rw [addName, found]; exact if_neg full⟩)
  · exact .inl ⟨i, rfl, by rw [addName, found]⟩

theorem addLocalCases (c : Code) (n : String) :
    (∃ i, c.localIndex? n = some i ∧ c.addLocal n = (c, .ok i)) ∨
    (c.localIndex? n = none ∧ tableLimit ≤ c.locals.size ∧ c.addLocal n = (c, .error .locals)) ∨
    (c.localIndex? n = none ∧ c.locals.size < tableLimit ∧
      c.addLocal n = ({ c with locals := c.locals.push n }, .ok c.locals.size)) := by
  rcases found : c.localIndex? n with _ | i
  · by_cases full : tableLimit ≤ c.locals.size
    · exact .inr (.inl ⟨rfl, full, by rw [addLocal, found]; exact if_pos full⟩)
    · exact .inr (.inr ⟨rfl, Nat.lt_of_not_le full, by rw [addLocal, found]; exact if_neg full⟩)
  · exact .inl ⟨i, rfl, by rw [addLocal, found]⟩

theorem addLiteralBody (v : Value) : SameBody c (c.addLiteral v).1 := by
  rcases addLiteralCases c v with ⟨i, -, added⟩ | ⟨-, -, added⟩ | ⟨-, -, added⟩ <;> rw [added] <;>
    exact ⟨rfl, rfl, rfl⟩

theorem addLiteralTables (ok : c.TablesOk) (v : Value) : (c.addLiteral v).1.TablesOk := by
  rcases addLiteralCases c v with ⟨i, -, added⟩ | ⟨-, -, added⟩ | ⟨missing, room, added⟩ <;> rw [added]
  · exact ok
  · exact ok
  · -- the new literal is the same as none before it
    have fresh : ∀ w ∈ c.literals, w.sameLiteral v = false := by
      simpa using Array.findIdx?_eq_none_iff.mp missing
    refine { ok with literals := ?_, literalsFit := ?_ }
    · simpa [List.pairwise_append] using ⟨ok.literals, fresh⟩
    · simp only [Array.size_push]; omega

theorem addNameBody (n : String) : SameBody c (c.addName n).1 := by
  rcases addNameCases c n with ⟨i, -, added⟩ | ⟨-, -, added⟩ | ⟨-, -, added⟩ <;> rw [added] <;>
    exact ⟨rfl, rfl, rfl⟩

theorem indexInsert (ok : c.TablesOk) {n : String} (missing : c.nameIndex[n]? = none) (m : String) (i : Nat) :
    (c.nameIndex.insert n c.names.size)[m]? = some i ↔ (c.names.push n)[i]? = some m := by
  rw [Std.HashMap.getElem?_insert, Array.getElem?_push]
  by_cases same : n = m
  · subst same
    have absent : c.names[i]? ≠ some n := fun at_i => by simp [(ok.nameIndex n i).mpr at_i] at missing
    by_cases last : i = c.names.size <;> simp_all [eq_comm]
  · by_cases last : i = c.names.size
    · subst last
      simp [same, ok.nameIndex]
    · simp [same, last, ok.nameIndex]

theorem addNameTables (ok : c.TablesOk) (n : String) : (c.addName n).1.TablesOk := by
  rcases addNameCases c n with ⟨i, -, added⟩ | ⟨-, -, added⟩ | ⟨missing, room, added⟩ <;> rw [added]
  · exact ok
  · exact ok
  · refine { ok with nameIndex := indexInsert ok missing, namesFit := ?_ }
    simp only [Array.size_push]; omega

theorem addLocalBody (n : String) : SameBody c (c.addLocal n).1 := by
  rcases addLocalCases c n with ⟨i, -, added⟩ | ⟨-, -, added⟩ | ⟨-, -, added⟩ <;> rw [added] <;>
    exact ⟨rfl, rfl, rfl⟩

theorem addLocalTables (ok : c.TablesOk) (n : String) : (c.addLocal n).1.TablesOk := by
  rcases addLocalCases c n with ⟨i, -, added⟩ | ⟨-, -, added⟩ | ⟨missing, room, added⟩ <;> rw [added]
  · exact ok
  · exact ok
  · -- the new local has a name none before it has
    have fresh : ∀ x ∈ c.locals, x ≠ n := by
      simpa [localIndex?] using Array.findIdx?_eq_none_iff.mp missing
    refine { ok with locals := ?_, localsFit := ?_ }
    · simpa [List.nodup_append] using ⟨ok.locals, fresh⟩
    · simp only [Array.size_push]; omega

theorem addArgumentLocal (n : String) (optional : Bool) :
    ∃ least most, (c.addArgument n optional).1 = { (c.addLocal n).1 with minArgs := least, maxArgs := most } := by
  unfold addArgument
  rcases found : c.addLocal n with ⟨c', _ | i⟩
  · exact ⟨c'.minArgs, c'.maxArgs, rfl⟩
  · cases optional
    · exact ⟨c'.maxArgs + 1, c'.maxArgs + 1, rfl⟩
    · exact ⟨c'.minArgs, c'.maxArgs + 1, rfl⟩

theorem addArgumentBody (n : String) (optional : Bool) : SameBody c (c.addArgument n optional).1 := by
  obtain ⟨least, most, eq⟩ := addArgumentLocal (c := c) n optional
  have local_ := addLocalBody (c := c) n
  rw [eq]
  exact ⟨local_.instrs, local_.lines, local_.labels⟩

theorem addArgumentTables (ok : c.TablesOk) (n : String) (optional : Bool) :
    (c.addArgument n optional).1.TablesOk := by
  obtain ⟨least, most, eq⟩ := addArgumentLocal (c := c) n optional
  rw [eq]
  exact { addLocalTables ok n with }

theorem makeLabelBody : c.makeLabel.1.instrs = c.instrs ∧ c.makeLabel.1.lines = c.lines := by
  unfold makeLabel
  dsimp only
  split <;> exact ⟨rfl, rfl⟩

theorem makeLabelTables (ok : c.TablesOk) : c.makeLabel.1.TablesOk := by
  unfold makeLabel
  dsimp only
  split
  · exact ok
  · exact { ok with labelsFit := by simp only; omega }

theorem makeLabelWellFormed (wf : c.WellFormed) : c.makeLabel.1.WellFormed :=
  ⟨makeLabelTables wf.tables, by simpa only [size, makeLabelBody.1, makeLabelBody.2] using wf.lines⟩

/-! ### Adding what is already there -/

/-- What adding an entry the unit already has does: it answers the entry's index and leaves
the unit as it is. -/
structure Readds (c : Code) : Prop where
  literal : ∀ (i : Nat) (w v : Value), c.literals[i]? = some w → w.sameLiteral v = true →
    c.addLiteral v = (c, .ok i)
  name : ∀ (i : Nat) (n : String), c.names[i]? = some n → c.addName n = (c, .ok i)
  localVar : ∀ (i : Nat) (n : String), c.locals[i]? = some n → c.addLocal n = (c, .ok i)

theorem TablesOk.literalFound (ok : c.TablesOk) {i : Nat} {w v : Value} (at_i : c.literals[i]? = some w)
    (same : w.sameLiteral v = true) : c.literals.findIdx? (fun u => u.sameLiteral v) = some i := by
  obtain ⟨lt, rfl⟩ := Array.getElem?_eq_some_iff.mp at_i
  refine Array.findIdx?_eq_some_iff_getElem.mpr ⟨lt, same, fun j before earlier => ?_⟩
  have distinct := List.pairwise_iff_getElem.mp ok.literals j i (by simp; omega) (by simpa) before
  simp only [Array.getElem_toList] at distinct
  have := Value.sameLiteralTrans earlier (by rw [Value.sameLiteralComm]; exact same)
  simp_all

theorem TablesOk.localFound (ok : c.TablesOk) {i : Nat} {n : String} (at_i : c.locals[i]? = some n) :
    c.localIndex? n = some i := by
  obtain ⟨lt, rfl⟩ := Array.getElem?_eq_some_iff.mp at_i
  refine Array.findIdx?_eq_some_iff_getElem.mpr ⟨lt, by simp, fun j before earlier => ?_⟩
  have distinct := List.pairwise_iff_getElem.mp ok.locals j i (by simp; omega) (by simpa) before
  simp_all

theorem TablesOk.readds (ok : c.TablesOk) : c.Readds where
  literal i w v at_i same := by simp [addLiteral, ok.literalFound at_i same]
  name i n at_i := by simp [addName, (ok.nameIndex n i).mpr at_i]
  localVar i n at_i := by simp [addLocal, ok.localFound at_i]

/-! ### The line map -/

/-- One entry added at the end of a line map, taking over an entry already at its index: the
merge that recording a line, compaction and appending all make. -/
def mergeLine (acc : Array (Nat × Nat)) (p line : Nat) : Array (Nat × Nat) :=
  match acc.back? with
  | some (q, _) => if q == p then acc.pop.push (p, line) else acc.push (p, line)
  | none => acc.push (p, line)

theorem ascendingSnoc {l : List (Nat × Nat)} {x : Nat × Nat} :
    Ascending (l ++ [x]) ↔ Ascending l ∧ ∀ e ∈ l, e.1 < x.1 := by
  simp [Ascending, List.pairwise_append]

theorem mergeLineOk {acc : Array (Nat × Nat)} {p : Nat} (line : Nat) (asc : Ascending acc.toList)
    (below : ∀ e ∈ acc.toList, e.1 ≤ p) :
    Ascending (mergeLine acc p line).toList ∧
      ∀ e ∈ (mergeLine acc p line).toList, e ∈ acc.toList ∨ e = (p, line) := by
  unfold mergeLine
  rcases last : acc.back? with _ | ⟨q, l⟩
  · have empty : acc.toList = [] := by simpa using last
    simp [empty, Ascending]
  · obtain ⟨init, split⟩ : ∃ init, acc.toList = init ++ [(q, l)] :=
      List.getLast?_eq_some_iff.mp (by rw [Array.getLast?_toList]; exact last)
    rw [split] at asc below
    obtain ⟨ascInit, lt⟩ := ascendingSnoc.mp asc
    have qle : q ≤ p := below (q, l) (by simp)
    by_cases same : q = p
    · have merged : (acc.pop.push (p, line)).toList = init ++ [(p, line)] := by
        simp [Array.toList_pop, split]
      simp only [same, beq_self_eq_true, if_true, merged]
      refine ⟨ascendingSnoc.mpr ⟨ascInit, fun e mem => same ▸ lt e mem⟩, fun e mem => ?_⟩
      rcases List.mem_append.mp mem with old | new
      · exact .inl (by rw [split]; exact List.mem_append_left _ old)
      · exact .inr (List.mem_singleton.mp new)
    · have pushed : (acc.push (p, line)).toList = acc.toList ++ [(p, line)] := Array.toList_push
      simp only [beq_iff_eq, same, if_false, pushed]
      refine ⟨ascendingSnoc.mpr ⟨by rw [split]; exact asc, fun e mem => ?_⟩, fun e mem => ?_⟩
      · rw [split] at mem
        rcases List.mem_append.mp mem with old | last
        · exact Nat.lt_of_lt_of_le (lt e old) qle
        · rw [List.mem_singleton.mp last]; exact Nat.lt_of_le_of_ne qle same
      · rcases List.mem_append.mp mem with old | new
        · exact .inl old
        · exact .inr (List.mem_singleton.mp new)

theorem foldMergeOk (g : Nat → Nat) (mono : ∀ a b, a ≤ b → g a ≤ g b) :
    ∀ (more : List (Nat × Nat)) (acc : Array (Nat × Nat)), Ascending more → Ascending acc.toList →
      (∀ e ∈ acc.toList, ∀ x ∈ more, e.1 ≤ g x.1) →
      Ascending (more.foldl (fun acc x => mergeLine acc (g x.1) x.2) acc).toList ∧
        ∀ e ∈ (more.foldl (fun acc x => mergeLine acc (g x.1) x.2) acc).toList,
          e ∈ acc.toList ∨ ∃ x ∈ more, e = (g x.1, x.2)
  | [], acc, _, asc, _ => ⟨asc, fun _ mem => .inl mem⟩
  | x :: more, acc, ascMore, asc, below => by
    obtain ⟨xFirst, ascRest⟩ := List.pairwise_cons.mp (show ((x :: more).map Prod.fst).Pairwise _ from ascMore)
    obtain ⟨ascMerged, memMerged⟩ := mergeLineOk (p := g x.1) x.2 asc (fun e mem => below e mem x (by simp))
    -- every entry after the merge stands at or below `g x.1`, so below every later index
    have belowRest : ∀ e ∈ (mergeLine acc (g x.1) x.2).toList, ∀ y ∈ more, e.1 ≤ g y.1 := by
      intro e mem y y_mem
      have xy : g x.1 ≤ g y.1 := mono _ _ (Nat.le_of_lt (xFirst y.1 (List.mem_map_of_mem y_mem)))
      rcases memMerged e mem with old | rfl
      · exact Nat.le_trans (below e old x (by simp)) xy
      · exact xy
    obtain ⟨ascResult, memResult⟩ := foldMergeOk g mono more _ ascRest ascMerged belowRest
    refine ⟨ascResult, fun e mem => ?_⟩
    rcases memResult e mem with merged | ⟨y, y_mem, rfl⟩
    · rcases memMerged e merged with old | rfl
      · exact .inl old
      · exact .inr ⟨x, by simp⟩
    · exact .inr ⟨y, by simp [y_mem]⟩

theorem addLineLines (line : Nat) :
    (c.addLine line).lines = c.lines ∨ (c.addLine line).lines = mergeLine c.lines c.size line := by
  unfold addLine mergeLine size
  rcases c.lines.back? with _ | ⟨p, l⟩
  · exact .inr rfl
  · by_cases same : p = c.instrs.size
    · simp [same]
    · by_cases old : l = line <;> simp [same, old]

theorem addLineKeeps (line : Nat) : c.addLine line = { c with lines := (c.addLine line).lines } := by
  unfold addLine
  dsimp only
  split
  · split
    · rfl
    · split <;> rfl
  · rfl

theorem addLineWellFormed (wf : c.WellFormed) (line : Nat) : (c.addLine line).WellFormed := by
  rw [addLineKeeps]
  refine ⟨wf.tables.congr rfl rfl rfl rfl (Nat.le_refl _), ?_⟩
  show LinesOk (c.addLine line).lines.toList c.size
  rcases addLineLines (c := c) line with same | merged
  · rw [same]; exact wf.lines
  · obtain ⟨asc, mem⟩ := mergeLineOk line wf.lines.ascending wf.lines.bounded
    rw [merged]
    refine ⟨asc, fun e e_mem => ?_⟩
    rcases mem e e_mem with old | rfl
    · exact wf.lines.bounded e old
    · exact Nat.le_refl _

/-! ### Compaction -/

/-- One step of the count behind `keptBefore`: the count so far recorded, then advanced past
a kept instruction. -/
def countKept (acc : Array Nat × Nat) (keep : Bool) : Array Nat × Nat :=
  (acc.1.push acc.2, if keep then acc.2 + 1 else acc.2)

theorem keptBeforeFold (keep : Array Bool) :
    keptBefore keep = (keep.toList.foldl countKept (#[], 0)).1.push (keep.toList.foldl countKept (#[], 0)).2 := by
  rw [keptBefore, ← Array.foldl_toList]
  rfl

theorem countKeptFold : ∀ (keep : List Bool) (a : Array Nat) (k : Nat), a.toList.Pairwise (· ≤ ·) →
    (∀ x ∈ a, x ≤ k) →
    (keep.foldl countKept (a, k)).1.toList.Pairwise (· ≤ ·) ∧
      (∀ x ∈ (keep.foldl countKept (a, k)).1, x ≤ (keep.foldl countKept (a, k)).2) ∧
      (keep.foldl countKept (a, k)).2 = k + keep.count true ∧
      (keep.foldl countKept (a, k)).1.size = a.size + keep.length
  | [], a, k, sorted, below => ⟨sorted, below, rfl, rfl⟩
  | b :: keep, a, k, sorted, below => by
    have grown : k ≤ (if b then k + 1 else k) := by split <;> omega
    obtain ⟨sorted', below', count, size⟩ := countKeptFold keep (a.push k) (if b then k + 1 else k)
      (by simpa [List.pairwise_append] using ⟨sorted, below⟩)
      (fun x mem => by
        rcases Array.mem_push.mp mem with old | rfl
        · exact Nat.le_trans (below x old) grown
        · exact grown)
    refine ⟨sorted', below', ?_, ?_⟩
    · rw [List.foldl_cons, countKept, count, List.count_cons]
      cases b
      · simp
      · simp
        omega
    · rw [List.foldl_cons, countKept, size, Array.size_push, List.length_cons]; omega

theorem keptBeforeOk (keep : Array Bool) :
    (keptBefore keep).toList.Pairwise (· ≤ ·) ∧ (∀ x ∈ keptBefore keep, x ≤ keep.count true) ∧
      (keptBefore keep).size = keep.size + 1 := by
  obtain ⟨sorted, below, count, size⟩ := countKeptFold keep.toList #[] 0 (by simp) (by simp)
  rw [keptBeforeFold]
  rw [Nat.zero_add, Array.count_toList] at count
  generalize keep.toList.foldl countKept (#[], 0) = r at *
  refine ⟨?_, fun x mem => ?_, by simp [size]⟩
  · rw [Array.toList_push, List.pairwise_append]
    exact ⟨sorted, List.pairwise_singleton _ _, fun x mem y last => by
      rw [List.mem_singleton.mp last]; exact below x (Array.mem_toList_iff.mp mem)⟩
  · rcases Array.mem_push.mp mem with old | rfl
    · exact count ▸ below x old
    · exact Nat.le_of_eq count

theorem sortedGetD {a : Array Nat} (sorted : a.toList.Pairwise (· ≤ ·)) {i j : Nat} (ij : i ≤ j)
    (inside : j < a.size) : a[i]?.getD 0 ≤ a[j]?.getD 0 := by
  rcases Nat.lt_or_eq_of_le ij with lt | rfl
  · have := List.pairwise_iff_getElem.mp sorted i j (by simp; omega) (by simpa) lt
    simpa [Array.getElem?_eq_getElem (Nat.lt_trans lt inside), Array.getElem?_eq_getElem inside] using this
  · exact Nat.le_refl _

theorem keptSize {β : Type} (instrs : Array Instr) (keep : Array Bool) (same : keep.size = instrs.size)
    (pick : Instr × Bool → Option β) (picks : ∀ x, (pick x).isSome = x.2) :
    ((instrs.zip keep).filterMap pick).size = keep.count true := by
  rw [← Array.length_toList, Array.toList_filterMap, List.length_filterMap_eq_countP, Array.toList_zip,
    ← Array.count_toList, List.count_eq_countP]
  have snd : (instrs.toList.zip keep.toList).map Prod.snd = keep.toList :=
    List.map_snd_zip (by simp [same])
  calc (instrs.toList.zip keep.toList).countP (fun x => (pick x).isSome)
      = (instrs.toList.zip keep.toList).countP ((· == true) ∘ Prod.snd) := by
        congr 1; funext x; simp [picks]
    _ = ((instrs.toList.zip keep.toList).map Prod.snd).countP (· == true) := List.countP_map.symm
    _ = keep.toList.countP (· == true) := by rw [snd]

theorem remapLinesFold (newIndex : Array Nat) (lines : Array (Nat × Nat)) :
    remapLines newIndex lines =
      lines.toList.foldl (fun acc x => mergeLine acc (newIndex[min x.1 (newIndex.size - 1)]?.getD 0) x.2) #[] := by
  rw [remapLines, ← Array.foldl_toList]
  rfl

theorem dropRoundSome {instrs : Array Instr} {lines : Array (Nat × Nat)} {r : Array Instr × Array (Nat × Nat)}
    (round : dropRound instrs lines = some r) :
    ∃ (keep : Array Bool) (pick : Instr × Bool → Option Instr), keep.size = instrs.size ∧
      (∀ x, (pick x).isSome = x.2) ∧ r = ((instrs.zip keep).filterMap pick, remapLines (keptBefore keep) lines) := by
  unfold dropRound at round
  dsimp only at round
  split at round
  · contradiction
  · refine ⟨_, _, by simp, fun x => ?_, (Option.some.inj round).symm⟩
    rcases x with ⟨op, _ | _⟩ <;> rfl

theorem dropRoundLines {instrs : Array Instr} {lines : Array (Nat × Nat)} {r : Array Instr × Array (Nat × Nat)}
    (round : dropRound instrs lines = some r) (asc : Ascending lines.toList) : LinesOk r.2.toList r.1.size := by
  obtain ⟨keep, pick, same, picks, rfl⟩ := dropRoundSome round
  obtain ⟨sorted, bounded, indexSize⟩ := keptBeforeOk keep
  -- an old index moves to the number of kept instructions before it, a monotone move
  let move := fun pc => (keptBefore keep)[min pc ((keptBefore keep).size - 1)]?.getD 0
  have mono : ∀ a b, a ≤ b → move a ≤ move b := fun a b ab =>
    sortedGetD sorted (by omega) (by omega)
  have moved : ∀ pc, move pc ≤ keep.count true := fun pc => by
    rcases found : (keptBefore keep)[min pc ((keptBefore keep).size - 1)]? with _ | x
    · simp [move, found]
    · simpa [move, found] using bounded x (Array.mem_of_getElem? found)
  obtain ⟨ascResult, memResult⟩ := foldMergeOk move mono lines.toList #[] asc (by simp [Ascending]) (by simp)
  refine ⟨by rw [remapLinesFold]; exact ascResult, fun e mem => ?_⟩
  rw [remapLinesFold] at mem
  rw [keptSize instrs keep same pick picks]
  rcases memResult e mem with none | ⟨x, _, rfl⟩
  · simp at none
  · exact moved x.1

theorem dropRedundantLines :
    ∀ (fuel : Nat) (instrs : Array Instr) (lines : Array (Nat × Nat)), LinesOk lines.toList instrs.size →
      LinesOk (dropRedundant instrs lines fuel).2.toList (dropRedundant instrs lines fuel).1.size
  | 0, _, _, ok => ok
  | fuel + 1, instrs, lines, ok => by
    unfold dropRedundant
    split
    · rename_i round
      exact dropRedundantLines fuel _ _ (dropRoundLines round ok.ascending)
    · exact ok

theorem threadJumpsSize (instrs : Array Instr) : (threadJumps instrs).size = instrs.size := by
  unfold threadJumps
  generalize List.range instrs.size = pcs
  induction pcs generalizing instrs with
  | nil => rfl
  | cons pc pcs more =>
    rw [List.foldl_cons, more]
    split
    · dsimp only
      split <;> simp
    · rfl

theorem relocateWellFormed (wf : c.WellFormed) : c.relocate.WellFormed :=
  ⟨wf.tables.congr rfl rfl rfl rfl (Nat.zero_le _), by simpa [relocate, size] using wf.lines⟩

theorem compactWellFormed (wf : c.WellFormed) : c.compact.WellFormed := by
  have laid : (if c.needsRelocation then c.relocate else c).WellFormed := by
    split
    · exact relocateWellFormed wf
    · exact wf
  unfold compact
  dsimp only
  generalize (if c.needsRelocation then c.relocate else c) = c' at laid ⊢
  have threaded : LinesOk c'.lines.toList (threadJumps c'.instrs).size := by
    rw [threadJumpsSize]; exact laid.lines
  have dropped := dropRedundantLines ((threadJumps c'.instrs).size + 1) _ _ threaded
  exact ⟨laid.tables.congr rfl rfl rfl rfl (Nat.le_refl _), dropped⟩

/-! ### Appending -/

theorem addAllKeeps {α : Type} (add : Code → α → Code × Except TableFull Nat) (P : Code → Prop)
    (step : ∀ c x, P c → P (add c x).1) : ∀ (xs : List α) (c : Code), P c → P (addAll add c xs).1
  | [], _, kept => kept
  | x :: xs, c, kept => by
    have first := step c x kept
    unfold addAll
    rcases found : add c x with ⟨c', _ | i⟩
    · rw [found] at first; exact first
    · rw [found] at first
      have rest := addAllKeeps add P step xs c' first
      dsimp only
      split <;> (rename_i all; rw [all] at rest; exact rest)

/-- The tables of `c` stay sound and its body unchanged while entries are added. -/
def TablesOf (c c' : Code) : Prop := c'.TablesOk ∧ SameBody c c'

theorem appendLinesFold (lines more : Array (Nat × Nat)) (offset : Nat) :
    appendLines lines more offset = more.toList.foldl (fun acc x => mergeLine acc (x.1 + offset) x.2) lines := by
  rw [appendLines, ← Array.foldl_toList]
  rfl

theorem appendLinesOk {lines more : Array (Nat × Nat)} {size size' : Nat} (ok : LinesOk lines.toList size)
    (ok' : LinesOk more.toList size') : LinesOk (appendLines lines more size).toList (size + size') := by
  obtain ⟨asc, mem⟩ := foldMergeOk (· + size) (fun a b ab => Nat.add_le_add_right ab size) more.toList lines
    ok'.ascending ok.ascending (fun e old x _ => Nat.le_trans (ok.bounded e old) (Nat.le_add_left _ _))
  refine ⟨by rw [appendLinesFold]; exact asc, fun e e_mem => ?_⟩
  rw [appendLinesFold] at e_mem
  rcases mem e e_mem with old | ⟨x, x_mem, rfl⟩
  · exact Nat.le_trans (ok.bounded e old) (Nat.le_add_right _ _)
  · have := ok'.bounded x x_mem
    simp only; omega

theorem appendWellFormed {other : Code} (wf : c.WellFormed) (wf' : other.WellFormed) :
    (c.append other).1.WellFormed := by
  unfold append
  split
  · exact wf
  rename_i fits
  have literals := addAllKeeps addLiteral (TablesOf c)
    (fun c x h => ⟨addLiteralTables h.1 x, h.2.trans (addLiteralBody x)⟩) other.literals.toList c
    ⟨wf.tables, .refl c⟩
  rcases addedLiterals : addAll addLiteral c other.literals.toList with ⟨c₁, _ | _⟩ <;>
    rw [addedLiterals] at literals <;> dsimp only
  · exact wf.ofBody literals.1 literals.2
  have names := addAllKeeps addName (TablesOf c)
    (fun c x h => ⟨addNameTables h.1 x, h.2.trans (addNameBody x)⟩) other.names.toList c₁ literals
  rcases addedNames : addAll addName c₁ other.names.toList with ⟨c₂, _ | _⟩ <;>
    rw [addedNames] at names <;> dsimp only
  · exact wf.ofBody names.1 names.2
  have locals := addAllKeeps addLocal (TablesOf c)
    (fun c x h => ⟨addLocalTables h.1 x, h.2.trans (addLocalBody x)⟩) other.locals.toList c₂ names
  rcases addedLocals : addAll addLocal c₂ other.locals.toList with ⟨c₃, _ | _⟩ <;>
    rw [addedLocals] at locals <;> dsimp only
  · exact wf.ofBody locals.1 locals.2
  -- every table is in place; the code, labels and line map of `other` now follow those of `c`
  obtain ⟨tables, body⟩ : TablesOf c c₃ := locals
  refine ⟨{ tables with labelsFit := ?_ }, ?_⟩
  · show c₃.labelCount + other.labelCount ≤ labelLimit
    rw [body.labels]; omega
  · simpa [size, body.instrs, body.lines] using appendLinesOk wf.lines wf'.lines

/-! ### Building -/

theorem addInstrWellFormed (wf : c.WellFormed) (op : Instr) : (c.addInstr op).1.WellFormed :=
  ⟨wf.tables.congr rfl rfl rfl rfl (Nat.le_refl _), wf.lines.grow (by simp [addInstr, size])⟩

theorem addLiteralWellFormed (wf : c.WellFormed) (v : Value) : (c.addLiteral v).1.WellFormed :=
  wf.ofBody (addLiteralTables wf.tables v) (addLiteralBody v)

theorem addPushLiteralWellFormed (wf : c.WellFormed) (v : Value) : (c.addPushLiteral v).1.WellFormed := by
  have literal := addLiteralWellFormed wf v
  unfold addPushLiteral
  rcases found : c.addLiteral v with ⟨c', _ | i⟩ <;> rw [found] at literal <;> dsimp only
  · exact literal
  · exact addInstrWellFormed literal _

theorem patchWellFormed (wf : c.WellFormed) {pc : Nat} {op : Instr} {c' : Code} (patched : c.patch? pc op = some c') :
    c'.WellFormed := by
  unfold patch? at patched
  split at patched
  · obtain rfl := Option.some.inj patched
    exact ⟨wf.tables.congr rfl rfl rfl rfl (Nat.le_refl _), by simpa [size] using wf.lines⟩
  · contradiction

theorem addedFst (r : Code × Except TableFull Nat) : (Session.added r).1 = r.1 := by
  rcases r with ⟨c, _ | n⟩ <;> rfl

theorem repeatAddKeeps (add : Code → Nat → Code × Except TableFull Nat) (P : Code → Prop)
    (step : ∀ c i, P c → P (add c i).1) : ∀ (c : Code) (b : Batch) (i left : Nat), P c →
      P (Session.repeatAdd add c b i left).1
  | _, _, _, 0, kept => kept
  | c, b, i, left + 1, kept => by
    have first := step c i kept
    unfold Session.repeatAdd
    rcases found : add c i with ⟨c', _ | n⟩ <;> rw [found] at first <;> dsimp only
    · exact first
    · exact repeatAddKeeps add P step c' _ _ left first

theorem addInstrsWellFormed (ops : List Instr) :
    ∀ (acc : Code × Option Nat), acc.1.WellFormed →
      (ops.foldl (fun (acc : Code × Option Nat) op => ((acc.1.addInstr op).1, some (acc.1.addInstr op).2)) acc).1.WellFormed := by
  induction ops with
  | nil => exact fun _ wf => wf
  | cons op ops more => exact fun acc wf => more _ (addInstrWellFormed wf op)

mutual

theorem buildStepWellFormed (s : Session) {c : Code} (wf : c.WellFormed) :
    ∀ step : CodeStep, (s.buildStep c step).2.1.WellFormed
  | .instr op => addInstrWellFormed wf op
  | .instrs ops => addInstrsWellFormed ops (c, none) wf
  | .pushLiteral l => by
    show (Session.added (c.addPushLiteral (s.resolve l).2)).1.WellFormed
    rw [addedFst]; exact addPushLiteralWellFormed wf _
  | .literal l => by
    show (Session.added (c.addLiteral (s.resolve l).2)).1.WellFormed
    rw [addedFst]; exact addLiteralWellFormed wf _
  | .name n => by
    show (Session.added (c.addName n)).1.WellFormed
    rw [addedFst]; exact wf.ofBody (addNameTables wf.tables n) (addNameBody n)
  | .localVar n => by
    show (Session.added (c.addLocal n)).1.WellFormed
    rw [addedFst]; exact wf.ofBody (addLocalTables wf.tables n) (addLocalBody n)
  | .argument n optional => by
    show (Session.added (c.addArgument n optional)).1.WellFormed
    rw [addedFst]; exact wf.ofBody (addArgumentTables wf.tables n optional) (addArgumentBody n optional)
  | .makeLabel => by
    show (Session.added c.makeLabel).1.WellFormed
    rw [addedFst]; exact makeLabelWellFormed wf
  | .makeLabels count =>
    repeatAddKeeps (fun c _ => c.makeLabel) WellFormed (fun _ _ wf => makeLabelWellFormed wf) c _ 0 count wf
  | .namesBulk stem count =>
    repeatAddKeeps (fun c i => c.addName (stem ++ toString i)) WellFormed
      (fun _ i wf => wf.ofBody (addNameTables wf.tables _) (addNameBody _)) c _ 0 count wf
  | .label l => addInstrWellFormed wf _
  | .jump cond l => addInstrWellFormed wf _
  | .line l => addLineWellFormed wf l
  | .setName _ | .setFile _ | .setMinArgs _ | .setMaxArgs _ | .setVarargs _ | .setProcedure _ =>
    wf.ofBody (wf.tables.congr rfl rfl rfl rfl (Nat.le_refl _)) ⟨rfl, rfl, rfl⟩
  | .patch pc op => by
    show (match c.patch? pc op with | some c => (s, c, CodeReply.flag true) | none => (s, c, .flag false)).2.1.WellFormed
    split
    · rename_i patched; exact patchWellFormed wf patched
    · exact wf
  | .relocate => relocateWellFormed wf
  | .compact => compactWellFormed wf
  | .append steps => appendWellFormed wf (buildStepsWellFormed s emptyWellFormed steps)
  | .dump | .disassemble | .debug | .lineFor _ | .hasLocal _ | .literalAt _ | .nameAt _
  | .instructionAt _ | .summary => wf

theorem buildStepsWellFormed (s : Session) {c : Code} (wf : c.WellFormed) :
    ∀ steps : List CodeStep, (s.buildSteps c steps).2.1.WellFormed
  | [] => wf
  | step :: rest => buildStepsWellFormed _ (buildStepWellFormed s wf step) rest

end

/-- Whatever steps build a unit from the empty one, successful or refused, it is well formed:
sound tables with distinct names, an ascending line map within the code, and adding an entry
it already has answers that entry and changes nothing. -/
theorem builtCodeWellFormed (s : Session) (steps : List CodeStep) :
    (s.buildFresh steps).2.1.WellFormed ∧ (s.buildFresh steps).2.1.names.toList.Nodup ∧
      (s.buildFresh steps).2.1.Readds := by
  have wf := buildStepsWellFormed s emptyWellFormed steps
  exact ⟨wf, wf.tables.namesDistinct, wf.tables.readds⟩

end Code

end ScriptEngine
