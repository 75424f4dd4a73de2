import ScriptEngine.Proofs.Relocation
import ScriptEngine.Proofs.Compaction
/-!
Compaction leaves code in normal form and keeps its line map. After relocating and threading
the jumps, compaction removes the redundant instructions round after round until a round
finds none; each round removes one instruction at least, so the rounds the code's size allows
always reach that point. What stays is what one set of flags over the threaded code keeps:
the kept instructions in their order, each jump pointed at the new index of its target, the
first kept instruction at or after it. Only `nop`s and jumps by index that neither pop nor
install a handler are removed, and every kept instruction keeps its line. A jump past the end
of the code is pointed at the new end when something is removed, and left as it is otherwise.
-/
namespace ScriptEngine

namespace Instr

def retarget (f : Nat → Nat) : Instr → Instr
  | .jump j => .jump { j with target := f j.target }
  | op => op

/-- What compaction may remove: a `nop`, or a jump by index that neither pops nor installs a
handler. -/
def Removable (op : Instr) : Prop :=
  op = .nop ∨ ∃ j, op = .jump j ∧ j.pop = false ∧ j.symbolic = false ∧ j.condition ≠ .handler

theorem retargetTwice (f g : Nat → Nat) (op : Instr) :
    (op.retarget f).retarget g = op.retarget (g ∘ f) := by
  cases op <;> rfl

theorem retargetByLabel (f : Nat → Nat) (op : Instr) : (op.retarget f).byLabel = op.byLabel := by
  cases op <;> rfl

theorem removableOfRetarget {f : Nat → Nat} {op : Instr} (removable : (op.retarget f).Removable) :
    op.Removable := by
  cases op <;> simp_all [retarget, Removable]

end Instr

namespace Code

/-- The new index of index `t` when the instructions flagged `true` in `keep` stay: the number
kept before `t`, which is where the first kept instruction at or after `t` goes. -/
def landing (keep : List Bool) (t : Nat) : Nat := (keep.take t).count true

def selected {α : Type} (keep : List Bool) (xs : List α) : List α :=
  ((xs.zip keep).filter (·.2)).map (·.1)

/-- What keeping the instructions flagged in `keep` leaves of `ops`: the kept ones in order,
each jump pointed where its target lands. -/
def survivors (keep : List Bool) (ops : List Instr) : List Instr :=
  (selected keep ops).map (Instr.retarget (landing keep))

/-- Two removals as one: the flags of the second stand at the places the first kept. -/
def thenKeep : List Bool → List Bool → List Bool
  | [], _ => []
  | false :: first, second => false :: thenKeep first second
  | true :: first, [] => false :: thenKeep first []
  | true :: first, b :: second => b :: thenKeep first second

/-! ### Where indices land -/

@[simp] theorem landingZero (keep : List Bool) : landing keep 0 = 0 := by
  simp [landing]

@[simp] theorem landingNil (t : Nat) : landing [] t = 0 := by
  simp [landing]

theorem landingCons (b : Bool) (keep : List Bool) (t : Nat) :
    landing (b :: keep) (t + 1) = landing keep t + (if b then 1 else 0) := by
  cases b <;> simp [landing]

theorem landingLe (keep : List Bool) (t : Nat) : landing keep t ≤ keep.count true :=
  (List.take_sublist t keep).count_le true

theorem landingMono (keep : List Bool) {p q : Nat} (pq : p ≤ q) : landing keep p ≤ landing keep q := by
  unfold landing
  rw [← Nat.min_eq_left pq, ← List.take_take]
  exact (List.take_sublist _ _).count_le true

theorem landingStep (keep : List Bool) (t : Nat) :
    landing keep (t + 1) = landing keep t + (if keep[t]? = some true then 1 else 0) := by
  unfold landing
  rw [List.take_add_one, List.count_append]
  rcases keep[t]? with _ | _ | _ <;> simp

theorem landingLeIff {keep : List Bool} {j : Nat} (kept : keep[j]? = some true) (p : Nat) :
    landing keep p ≤ landing keep j ↔ p ≤ j := by
  constructor
  · intro le
    refine Nat.le_of_not_lt fun later => ?_
    have := landingMono keep (Nat.succ_le_of_lt later)
    rw [landingStep, if_pos kept] at this
    omega
  · exact landingMono keep

theorem landingSelf (keep : List Bool) (t : Nat) : landing keep t ≤ t := by
  have := List.length_take_le t keep
  have := List.count_le_length (a := true) (l := keep.take t)
  unfold landing
  omega

theorem landingFirstKept (keep : List Bool) {t j : Nat} (tj : t ≤ j)
    (skipped : ∀ k, t ≤ k → k < j → keep[k]? ≠ some true) : landing keep t = landing keep j := by
  obtain ⟨d, rfl⟩ := Nat.exists_eq_add_of_le tj
  induction d with
  | zero => rfl
  | succ d ih =>
    rw [← Nat.add_assoc, landingStep, if_neg (skipped (t + d) (Nat.le_add_right t d) (by omega)), Nat.add_zero]
    exact ih (Nat.le_add_right t d) fun k tk kd => skipped k tk (by omega)

theorem landingAll (n t : Nat) : landing (List.replicate n true) t = min t n := by
  simp [landing, List.take_replicate]

theorem landingThen : ∀ (first second : List Bool) (t : Nat),
    landing (thenKeep first second) t = landing second (landing first t)
  | [], _, t => by simp [thenKeep]
  | _ :: _, _, 0 => by simp
  | false :: first, second, t + 1 => by
    rw [thenKeep, landingCons, landingCons, landingThen first second t]
    simp
  | true :: first, [], t + 1 => by
    rw [thenKeep, landingCons, landingThen first [] t]
    simp
  | true :: first, b :: second, t + 1 => by
    rw [thenKeep, landingCons, landingCons, landingThen first second t, if_pos rfl, landingCons]

/-! ### Keeping entries -/

section Selected

variable {α β : Type}

@[simp] theorem selectedNil (keep : List Bool) : selected keep ([] : List α) = [] := rfl

theorem selectedCons (b : Bool) (keep : List Bool) (x : α) (xs : List α) :
    selected (b :: keep) (x :: xs) = if b then x :: selected keep xs else selected keep xs := by
  cases b <;> simp [selected]

theorem selectedMap (g : α → β) : ∀ (keep : List Bool) (xs : List α),
    selected keep (xs.map g) = (selected keep xs).map g
  | [], xs => by cases xs <;> rfl
  | _ :: _, [] => rfl
  | b :: keep, x :: xs => by
    rw [List.map_cons, selectedCons, selectedCons, selectedMap g keep xs]
    cases b <;> rfl

theorem selectedLength : ∀ (keep : List Bool) (xs : List α), xs.length = keep.length →
    (selected keep xs).length = keep.count true
  | [], [], _ => rfl
  | b :: keep, x :: xs, same => by
    rw [selectedCons, List.count_cons]
    have rest := selectedLength keep xs (by simpa using same)
    cases b <;> simp [rest]

theorem selectedAt : ∀ (keep : List Bool) (xs : List α) (i : Nat), xs.length = keep.length →
    keep[i]? = some true → (selected keep xs)[landing keep i]? = xs[i]?
  | [], _, _, _, kept => by simp at kept
  | _ :: _, [], _, same, _ => by simp at same
  | b :: keep, x :: xs, 0, _, kept => by
    obtain rfl : b = true := by simpa using kept
    simp [selectedCons]
  | b :: keep, x :: xs, i + 1, same, kept => by
    rw [selectedCons, landingCons]
    have rest := selectedAt keep xs i (by simpa using same) (by simpa using kept)
    cases b <;> simpa using rest

theorem selectedThen : ∀ (first second : List Bool) (xs : List α), xs.length = first.length →
    selected second (selected first xs) = selected (thenKeep first second) xs
  | [], _, [], _ => by simp [thenKeep]
  | false :: first, second, x :: xs, same => by
    rw [selectedCons, thenKeep, selectedCons]
    exact selectedThen first second xs (by simpa using same)
  | true :: first, [], x :: xs, same => by
    rw [selectedCons, thenKeep, selectedCons]
    simp only [if_true, Bool.false_eq_true, if_false]
    rw [← selectedThen first [] xs (by simpa using same)]
    simp [selected]
  | true :: first, b :: second, x :: xs, same => by
    rw [selectedCons, thenKeep, selectedCons, if_pos rfl, selectedCons,
      selectedThen first second xs (by simpa using same)]

end Selected

theorem thenKeepLength : ∀ first second : List Bool, (thenKeep first second).length = first.length
  | [], _ => rfl
  | false :: first, second => by simp [thenKeep, thenKeepLength first second]
  | true :: first, [] => by simp [thenKeep, thenKeepLength first []]
  | true :: first, _ :: second => by simp [thenKeep, thenKeepLength first second]

theorem thenKeepAt : ∀ (first second : List Bool) (i : Nat),
    (thenKeep first second)[i]? = first[i]?.map fun a => a && (second[landing first i]?.getD false)
  | [], _, _ => rfl
  | false :: _, _, 0 => rfl
  | true :: _, [], 0 => rfl
  | true :: _, _ :: _, 0 => by simp [thenKeep]
  | false :: first, second, i + 1 => by
    simp [thenKeep, landingCons, thenKeepAt first second i]
  | true :: first, [], i + 1 => by
    simp [thenKeep, thenKeepAt first [] i]
  | true :: first, b :: second, i + 1 => by
    simp [thenKeep, landingCons, thenKeepAt first second i]

theorem survivorsLength {keep : List Bool} {ops : List Instr} (same : ops.length = keep.length) :
    (survivors keep ops).length = keep.count true := by
  rw [survivors, List.length_map, selectedLength keep ops same]

theorem survivorsThen {first second : List Bool} {ops : List Instr} (same : ops.length = first.length) :
    survivors second (survivors first ops) = survivors (thenKeep first second) ops := by
  unfold survivors
  rw [selectedMap, selectedThen first second ops same, List.map_map]
  congr 1
  funext op
  rw [Function.comp_apply, Instr.retargetTwice]
  congr 1
  funext t
  exact (landingThen first second t).symm

/-! ### One round of removal -/

theorem countKeptLanding : ∀ (keep : List Bool) (a : Array Nat) (k : Nat),
    (keep.foldl countKept (a, k)).1.toList =
        a.toList ++ (List.range keep.length).map (fun i => k + landing keep i) ∧
      (keep.foldl countKept (a, k)).2 = k + keep.count true
  | [], a, k => by simp
  | b :: keep, a, k => by
    obtain ⟨recorded, count⟩ := countKeptLanding keep (a.push k) (if b then k + 1 else k)
    rw [List.foldl_cons]
    refine ⟨?_, ?_⟩
    · rw [countKept, recorded, Array.toList_push, List.append_assoc, List.length_cons,
        List.range_succ_eq_map, List.map_cons, List.map_map, landingZero, Nat.add_zero,
        List.singleton_append]
      refine congrArg (a.toList ++ k :: ·) (List.map_congr_left fun i _ => ?_)
      rw [Function.comp_apply, landingCons]
      cases b <;> (simp only [Bool.false_eq_true, ↓reduceIte]; omega)
    · rw [countKept, count, List.count_cons]
      cases b <;> (simp only [beq_iff_eq, Bool.false_eq_true, ↓reduceIte]; omega)

theorem keptBeforeLanding (keep : Array Bool) (t : Nat) :
    (keptBefore keep)[min t keep.size]?.getD 0 = landing keep.toList t := by
  obtain ⟨recorded, count⟩ := countKeptLanding keep.toList #[] 0
  rw [keptBeforeFold]
  generalize keep.toList.foldl countKept (#[], 0) = acc at recorded count
  have size : acc.1.size = keep.size := by
    simpa using congrArg List.length recorded
  by_cases inside : t < keep.size
  · have at_t : acc.1.toList[t]? = some (landing keep.toList t) := by
      rw [recorded]
      simp [inside]
    rw [Nat.min_eq_left (Nat.le_of_lt inside), Array.getElem?_push, if_neg (by omega),
      ← Array.getElem?_toList, at_t]
    rfl
  · rw [Nat.min_eq_right (by omega), ← size, Array.getElem?_push_size, count]
    have whole : keep.toList.take t = keep.toList :=
      List.take_of_length_le (by simp only [Array.length_toList]; omega)
    simp [landing, whole]

theorem foldMergeLast (g : Nat → Nat) (pc : Nat) : ∀ (l : List (Nat × Nat)) (acc : Array (Nat × Nat)),
    (l.foldl (fun acc x => mergeLine acc (g x.1) x.2) acc).toList.foldl (lastLine pc) none =
      (acc.toList ++ l.map fun x => (g x.1, x.2)).foldl (lastLine pc) none
  | [], acc => by simp
  | x :: l, acc => by
    rw [List.foldl_cons, foldMergeLast g pc l, List.foldl_append, mergeLineLast, ← List.foldl_append,
      List.map_cons, List.append_assoc, List.singleton_append]

theorem movedLast (g : Nat → Nat) {pc pc' : Nat} (sides : ∀ p, g p ≤ pc' ↔ p ≤ pc) :
    ∀ (l : List (Nat × Nat)) (start : Option Nat),
      (l.map fun x => (g x.1, x.2)).foldl (lastLine pc') start = l.foldl (lastLine pc) start
  | [], _ => rfl
  | x :: l, start => by
    have same : lastLine pc' start (g x.1, x.2) = lastLine pc start x := by
      unfold lastLine
      by_cases below : x.1 ≤ pc
      · rw [if_pos below, if_pos ((sides x.1).mpr below)]
      · rw [if_neg below, if_neg fun moved => below ((sides x.1).mp moved)]
    rw [List.map_cons, List.foldl_cons, List.foldl_cons, same, movedLast g sides l]

theorem remapLinesKept {keep : Array Bool} {j : Nat} (kept : keep.toList[j]? = some true)
    (lines : Array (Nat × Nat)) :
    (remapLines (keptBefore keep) lines).toList.foldl (lastLine (landing keep.toList j)) none =
      lines.toList.foldl (lastLine j) none := by
  have size : (keptBefore keep).size - 1 = keep.size := by
    rw [(keptBeforeOk keep).2.2, Nat.add_sub_cancel]
  rw [remapLinesFold, size]
  simp only [keptBeforeLanding]
  rw [foldMergeLast, Array.toList_empty, List.nil_append, movedLast _ (landingLeIff kept)]

theorem filterMapSurvivors (keep : List Bool) (f : Instr × Bool → Option Instr)
    (kept : ∀ op b, f (op, b) = if b then some (op.retarget (landing keep)) else none) (ops : List Instr) :
    (ops.zip keep).filterMap f = survivors keep ops := by
  unfold survivors selected
  generalize ops.zip keep = pairs
  induction pairs with
  | nil => rfl
  | cons x pairs ih =>
    obtain ⟨op, b⟩ := x
    rw [List.filterMap_cons, kept]
    cases b
    · rw [List.filter_cons_of_neg Bool.false_ne_true]
      exact ih
    · rw [List.filter_cons_of_pos rfl, List.map_cons, List.map_cons, ← ih]
      rfl

theorem redundantRemovable {pc : Nat} {op : Instr} (redundant : isRedundant pc op = true) : op.Removable := by
  cases op with
  | nop => exact .inl rfl
  | jump j =>
    simp only [isRedundant, Bool.and_eq_true, Bool.not_eq_true', bne_iff_ne, ne_eq] at redundant
    exact .inr ⟨j, rfl, redundant.1.1.1, redundant.1.1.2, redundant.1.2⟩
  | _ => simp [isRedundant] at redundant

theorem dropRoundSurvivors {instrs : Array Instr} {lines : Array (Nat × Nat)}
    {r : Array Instr × Array (Nat × Nat)} (round : dropRound instrs lines = some r) :
    ∃ keep : List Bool, keep.length = instrs.size ∧ false ∈ keep ∧
      (∀ i op, instrs[i]? = some op → keep[i]? = some !isRedundant i op) ∧
      r.1.toList = survivors keep instrs.toList ∧
      ∀ j, keep[j]? = some true →
        r.2.toList.foldl (lastLine (landing keep j)) none = lines.toList.foldl (lastLine j) none := by
  unfold dropRound at round
  dsimp only at round
  split at round
  · contradiction
  rename_i notAll
  cases round
  generalize flags : Array.map (fun x => !isRedundant x.snd x.fst) instrs.zipIdx = keep at notAll ⊢
  have size : keep.size = instrs.size := by
    rw [← flags, Array.size_map, Array.size_zipIdx]
  refine ⟨keep.toList, by simp [size], ?_, fun i op at_i => ?_, ?_, fun j kept => remapLinesKept kept lines⟩
  · -- a round that keeps everything finds nothing to do
    refine Classical.byContradiction fun allKept =>
      notAll (Array.all_eq_true_iff_forall_mem.mpr fun b mem => ?_)
    cases b
    · exact absurd (Array.mem_toList_iff.mpr mem) allKept
    · rfl
  · rw [← flags, Array.toList_map, Array.toList_zipIdx, List.getElem?_map, List.getElem?_zipIdx,
      Array.getElem?_toList, at_i]
    simp
  · rw [Array.toList_filterMap, Array.toList_zip]
    refine filterMapSurvivors _ _ (fun op b => ?_) _
    cases op <;> simp [Instr.retarget, ← size, keptBeforeLanding]

/-! ### Rounds of removal -/

/-- Rounds of removal have brought code `T` with line map `lines₀` to `cur` and `lines`: these
are what the flags `keep` over `T` keep, each kept instruction with its line, and only what
compaction may remove is gone. -/
structure Removed (T : List Instr) (lines₀ : List (Nat × Nat)) (keep : List Bool) (cur : Array Instr)
    (lines : Array (Nat × Nat)) : Prop where
  length : T.length = keep.length
  code : cur.toList = survivors keep T
  lineOf : ∀ i : Nat, keep[i]? = some true →
    lines.toList.foldl (lastLine (landing keep i)) none = lines₀.foldl (lastLine i) none
  removable : ∀ (i : Nat) (op : Instr), keep[i]? = some false → T[i]? = some op → op.Removable
  removedOne : false ∈ keep

theorem survivorsAt {keep : List Bool} {ops : List Instr} (same : ops.length = keep.length) {i : Nat}
    (kept : keep[i]? = some true) :
    (survivors keep ops)[landing keep i]? = ops[i]?.map (Instr.retarget (landing keep)) := by
  rw [survivors, List.getElem?_map, selectedAt keep ops i same kept]

theorem Removed.first {T : Array Instr} {lines₀ : Array (Nat × Nat)} {r : Array Instr × Array (Nat × Nat)}
    (round : dropRound T lines₀ = some r) : ∃ keep, Removed T.toList lines₀.toList keep r.1 r.2 := by
  obtain ⟨keep, length, removedOne, flagged, code, lineOf⟩ := dropRoundSurvivors round
  refine ⟨keep, ⟨by simpa using length.symm, code, lineOf, fun i op removed at_i => ?_, removedOne⟩⟩
  have flag := flagged i op (by simpa using at_i)
  rw [removed, Option.some.injEq] at flag
  exact redundantRemovable (by simpa using flag.symm)

theorem Removed.round {T : List Instr} {lines₀ : List (Nat × Nat)} {keep : List Bool} {cur : Array Instr}
    {lines : Array (Nat × Nat)} {r : Array Instr × Array (Nat × Nat)} (done : Removed T lines₀ keep cur lines)
    (round : dropRound cur lines = some r) : ∃ keep', Removed T lines₀ keep' r.1 r.2 := by
  obtain ⟨next, -, -, flagged, code, lineOf⟩ := dropRoundSurvivors round
  refine ⟨thenKeep keep next, ⟨?_, ?_, fun i kept => ?_, fun i op removed at_i => ?_, ?_⟩⟩
  · rw [thenKeepLength, done.length]
  · rw [code, done.code, survivorsThen done.length]
  · -- kept by the earlier rounds, and by this one where it went
    rw [thenKeepAt] at kept
    obtain ⟨a, at_i, both⟩ := Option.map_eq_some_iff.mp kept
    obtain ⟨rfl, stays⟩ : a = true ∧ (next[landing keep i]?.getD false) = true := by simpa using both
    have nextKept : next[landing keep i]? = some true := by
      revert stays
      cases next[landing keep i]? <;> simp
    rw [landingThen, lineOf _ nextKept, done.lineOf i at_i]
  · rw [thenKeepAt] at removed
    obtain ⟨a, at_i', both⟩ := Option.map_eq_some_iff.mp removed
    cases a
    · exact done.removable i op at_i' at_i
    -- kept by the earlier rounds and redundant where it went, so removed by this one
    have moved := survivorsAt done.length at_i'
    rw [← done.code, at_i, Option.map_some, Array.getElem?_toList] at moved
    have flag := flagged _ _ moved
    rw [flag] at both
    exact Instr.removableOfRetarget (redundantRemovable (by simpa using both))
  · -- what an earlier round removed stays removed
    obtain ⟨i, at_i⟩ := List.mem_iff_getElem?.mp done.removedOne
    exact List.mem_of_getElem? (by rw [thenKeepAt, at_i]; rfl)

theorem dropRedundantRemoved : ∀ (fuel : Nat) {T : List Instr} {lines₀ : List (Nat × Nat)} {keep : List Bool}
    {cur : Array Instr} {lines : Array (Nat × Nat)}, Removed T lines₀ keep cur lines →
    ∃ keep', Removed T lines₀ keep' (dropRedundant cur lines fuel).1 (dropRedundant cur lines fuel).2
  | 0, _, _, keep, _, _, done => ⟨keep, done⟩
  | fuel + 1, _, _, keep, cur, lines, done => by
    unfold dropRedundant
    rcases found : dropRound cur lines with _ | r
    · exact ⟨keep, done⟩
    · obtain ⟨keep', next⟩ := done.round found
      exact dropRedundantRemoved fuel next

theorem countTrueLt : ∀ {keep : List Bool}, false ∈ keep → keep.count true < keep.length
  | b :: keep, mem => by
    rw [List.count_cons, List.length_cons]
    rcases List.mem_cons.mp mem with rfl | rest
    · have := List.count_le_length (a := true) (l := keep)
      simp
      omega
    · have := countTrueLt rest
      cases b <;> simp <;> omega

theorem dropRoundShrinks {instrs : Array Instr} {lines : Array (Nat × Nat)}
    {r : Array Instr × Array (Nat × Nat)} (round : dropRound instrs lines = some r) :
    r.1.size < instrs.size := by
  obtain ⟨keep, length, removed, -, code, -⟩ := dropRoundSurvivors round
  have same : instrs.toList.length = keep.length := by simpa using length.symm
  have kept := survivorsLength same
  rw [← code, Array.length_toList] at kept
  have := countTrueLt removed
  omega

theorem dropRedundantSettles : ∀ (fuel : Nat) (instrs : Array Instr) (lines : Array (Nat × Nat)),
    instrs.size < fuel →
      dropRound (dropRedundant instrs lines fuel).1 (dropRedundant instrs lines fuel).2 = none
  | 0, _, _, small => absurd small (Nat.not_lt_zero _)
  | fuel + 1, instrs, lines, small => by
    unfold dropRedundant
    rcases found : dropRound instrs lines with _ | r
    · exact found
    · exact dropRedundantSettles fuel r.1 r.2 (by have := dropRoundShrinks found; omega)

theorem dropRoundNone {instrs : Array Instr} {lines : Array (Nat × Nat)} (none : dropRound instrs lines = none)
    {i : Nat} {op : Instr} (at_i : instrs[i]? = some op) : isRedundant i op = false := by
  unfold dropRound at none
  dsimp only at none
  split at none
  · rename_i allKept
    have flag := Array.all_eq_true_iff_forall_mem.mp allKept (!isRedundant i op)
      (Array.mem_map.mpr ⟨(op, i), Array.mk_mem_zipIdx_iff_getElem?.mpr at_i, rfl⟩)
    simpa using flag
  · contradiction

/-! ### Relocating and threading -/

/-- The code compaction starts from: relocated if it needs it. -/
def laidOut (c : Code) : Code := if c.needsRelocation then c.relocate else c

/-- The instructions compaction removes from: those of the laid-out code, every jump threaded. -/
def threaded (c : Code) : Array Instr := threadJumps c.laidOut.instrs

/-- Every jump by index points into the code or just past its end. -/
def JumpsInside (c : Code) : Prop :=
  ∀ (pc : Nat) (j : Jump), c.instr? pc = some (.jump j) → j.symbolic = false → j.target ≤ c.size

theorem laidOutSettled (c : Code) : c.laidOut.needsRelocation = false := by
  unfold laidOut
  split
  · exact relocateSettled c
  · simpa using ‹¬c.needsRelocation = true›

theorem laidOutByIndex (c : Code) {pc : Nat} {op : Instr} (at_pc : c.laidOut.instr? pc = some op) :
    op.byLabel = false :=
  (needsRelocationFalse.mp (laidOutSettled c)).2 pc op at_pc

theorem laidOutLines (c : Code) : c.laidOut.lines = c.lines := by
  unfold laidOut
  split <;> rfl

theorem laidOutSize (c : Code) : c.laidOut.size = c.size := by
  unfold laidOut
  split
  · exact relocateSize c
  · rfl

theorem LabelTarget.le {c : Code} {L t : Nat} (h : c.LabelTarget L t) : t ≤ c.size := by
  rcases h with ⟨at_t, -⟩ | ⟨rfl, -⟩
  · exact Nat.le_of_lt (Machine.instrInside at_t)
  · exact Nat.le_refl _

theorem relocateInside {c : Code} (inside : c.JumpsInside) : c.relocate.JumpsInside := by
  intro pc j at_pc _
  rw [relocateSize]
  rcases found : c.instr? pc with _ | op
  · have gone : c.relocate.instr? pc = none := by
      simp only [instr?] at found ⊢
      simp [relocate, found]
    rw [gone] at at_pc
    cases at_pc
  · cases op with
    | label L => simp [relocateLabel found] at at_pc
    | jump old =>
      by_cases symbolic : old.symbolic = true
      · obtain ⟨t, lands, moved⟩ := relocateResolvesJump found symbolic
        rw [moved] at at_pc
        cases at_pc
        exact lands.le
      · rw [relocateKeeps found (by simpa [Instr.byLabel] using symbolic)] at at_pc
        cases at_pc
        exact inside pc j found (by simpa using symbolic)
    | _ => simp [relocateKeeps found rfl] at at_pc

theorem laidOutInside {c : Code} (inside : c.JumpsInside) : c.laidOut.JumpsInside := by
  unfold laidOut
  split
  · exact relocateInside inside
  · exact inside

theorem threadJumpsKeeps (P : Array Instr → Prop)
    (step : ∀ (code : Array Instr) (pc : Nat) (j : Jump), P code → code[pc]? = some (.jump j) →
      P (code.setIfInBounds pc (.jump { j with target := chaseTarget code j.target code.size })))
    (instrs : Array Instr) (start : P instrs) : P (threadJumps instrs) := by
  unfold threadJumps
  generalize List.range instrs.size = pcs
  induction pcs generalizing instrs with
  | nil => exact start
  | cons pc pcs more =>
    rw [List.foldl_cons]
    apply more
    split
    · rename_i j at_pc
      dsimp only
      split
      · exact step _ pc j start at_pc
      · exact start
    · exact start

theorem threadJumpsAt (instrs : Array Instr) (pc : Nat) :
    ∃ t, (threadJumps instrs)[pc]? = instrs[pc]?.map (Instr.retarget fun _ => t) := by
  refine threadJumpsKeeps
    (fun code => ∀ pc : Nat, ∃ t, code[pc]? = instrs[pc]?.map (Instr.retarget fun _ => t))
    (fun code pos j before at_j pc => ?_) instrs (fun pc => ?_) pc
  · by_cases here : pc = pos
    · subst here
      obtain ⟨t, was⟩ := before pc
      rw [at_j] at was
      obtain ⟨op, orig, moved⟩ := Option.map_eq_some_iff.mp was.symm
      cases op <;> simp only [Instr.retarget, Instr.jump.injEq, reduceCtorEq] at moved
      subst moved
      refine ⟨chaseTarget code t code.size, ?_⟩
      rw [Array.getElem?_setIfInBounds_self_of_lt (Array.getElem?_eq_some_iff.mp at_j).1, orig]
      rfl
    · rw [Array.getElem?_setIfInBounds_ne (Ne.symm here)]
      exact before pc
  · rcases instrs[pc]? with _ | op
    · exact ⟨0, rfl⟩
    · cases op with
      | jump j => exact ⟨j.target, rfl⟩
      | _ => exact ⟨0, rfl⟩

theorem chaseTargetWithin {instrs : Array Instr} {n : Nat}
    (inside : ∀ (pc : Nat) (j : Jump), instrs[pc]? = some (.jump j) → j.target ≤ n) :
    ∀ (fuel t : Nat), t ≤ n → chaseTarget instrs t fuel ≤ n
  | 0, _, le => le
  | fuel + 1, t, le => by
    unfold chaseTarget
    rcases found : instrs[t]? >>= plainJumpTarget? with _ | next
    · exact le
    · dsimp only
      split
      · obtain ⟨op, at_t, plain⟩ := Option.bind_eq_some_iff.mp found
        rw [Machine.plainJumpTargetSome plain] at at_t
        exact chaseTargetWithin inside fuel next (inside t _ at_t)
      · exact le

theorem threadJumpsInside {instrs : Array Instr}
    (inside : ∀ (pc : Nat) (j : Jump), instrs[pc]? = some (.jump j) → j.target ≤ instrs.size) :
    ∀ (pc : Nat) (j : Jump), (threadJumps instrs)[pc]? = some (.jump j) → j.target ≤ instrs.size := by
  refine (threadJumpsKeeps
    (fun code => code.size = instrs.size ∧
      ∀ (pc : Nat) (j : Jump), code[pc]? = some (.jump j) → j.target ≤ instrs.size)
    (fun code pos j ⟨size, before⟩ at_j => ⟨by rw [Array.size_setIfInBounds, size], fun pc j' at_pc => ?_⟩)
    instrs ⟨rfl, inside⟩).2
  by_cases here : pc = pos
  · subst here
    rw [Array.getElem?_setIfInBounds_self_of_lt (Array.getElem?_eq_some_iff.mp at_j).1] at at_pc
    cases at_pc
    exact chaseTargetWithin before code.size j.target (before pc j at_j)
  · rw [Array.getElem?_setIfInBounds_ne (Ne.symm here)] at at_pc
    exact before pc j' at_pc

theorem chaseTargetPast {instrs : Array Instr} {t : Nat} (past : instrs.size ≤ t) :
    ∀ fuel, chaseTarget instrs t fuel = t
  | 0 => rfl
  | fuel + 1 => by
    unfold chaseTarget
    rw [Array.getElem?_eq_none past]
    rfl

theorem threadJumpsPast {instrs : Array Instr} {pc : Nat} {j : Jump}
    (at_pc : instrs[pc]? = some (.jump j)) (past : instrs.size ≤ j.target) :
    (threadJumps instrs)[pc]? = some (.jump j) := by
  refine (threadJumpsKeeps (fun code => code.size = instrs.size ∧ code[pc]? = some (.jump j))
    (fun code pos j' ⟨size, here⟩ at_pos => ⟨by rw [Array.size_setIfInBounds, size], ?_⟩)
    instrs ⟨rfl, at_pc⟩).2
  by_cases same : pos = pc
  · subst same
    rw [here, Option.some.injEq, Instr.jump.injEq] at at_pos
    subst at_pos
    rw [chaseTargetPast (size ▸ past), Array.getElem?_setIfInBounds_self_of_lt
      (Array.getElem?_eq_some_iff.mp here).1]
  · rw [Array.getElem?_setIfInBounds_ne same]
    exact here

theorem threadedPast {c : Code} {pc : Nat} {j : Jump} (at_pc : c.instr? pc = some (.jump j))
    (byIndex : j.symbolic = false) (past : c.size ≤ j.target) : c.threaded[pc]? = some (.jump j) := by
  have laid : c.laidOut.instr? pc = some (.jump j) := by
    unfold laidOut
    split
    · exact relocateKeeps at_pc (by simpa [Instr.byLabel] using byIndex)
    · exact at_pc
  rw [← laidOutSize, size] at past
  exact threadJumpsPast laid past

theorem threadedSize (c : Code) : c.threaded.size = c.size := by
  rw [threaded, threadJumpsSize, ← laidOutSize]
  rfl

theorem threadedByIndex (c : Code) {pc : Nat} {op : Instr} (at_pc : c.threaded[pc]? = some op) :
    op.byLabel = false := by
  obtain ⟨t, moved⟩ := threadJumpsAt c.laidOut.instrs pc
  rw [threaded] at at_pc
  rw [at_pc] at moved
  obtain ⟨laid, at_laid, rfl⟩ := Option.map_eq_some_iff.mp moved.symm
  rw [Instr.retargetByLabel]
  exact laidOutByIndex c at_laid

theorem threadedInside {c : Code} (inside : c.JumpsInside) :
    ∀ (pc : Nat) (j : Jump), c.threaded[pc]? = some (.jump j) → j.target ≤ c.size := by
  have laid := laidOutInside inside
  rw [← laidOutSize]
  refine threadJumpsInside fun pc j at_pc => laid pc j at_pc ?_
  simpa [Instr.byLabel] using laidOutByIndex c at_pc

/-! ### The outcome -/

theorem dropRedundantOutcome (T : Array Instr) (lines₀ : Array (Nat × Nat)) : ∀ fuel : Nat,
    dropRedundant T lines₀ fuel = (T, lines₀) ∨
      ∃ keep, Removed T.toList lines₀.toList keep (dropRedundant T lines₀ fuel).1
        (dropRedundant T lines₀ fuel).2
  | 0 => .inl rfl
  | fuel + 1 => by
    unfold dropRedundant
    rcases found : dropRound T lines₀ with _ | r
    · exact .inl rfl
    · obtain ⟨keep, first⟩ := Removed.first found
      exact .inr (dropRedundantRemoved fuel first)

theorem survivorsMem {keep : List Bool} {ops : List Instr} {op : Instr} (mem : op ∈ survivors keep ops) :
    ∃ op' ∈ ops, op = op'.retarget (landing keep) := by
  obtain ⟨op', chosen, rfl⟩ := List.mem_map.mp mem
  obtain ⟨⟨a, b⟩, inZip, rfl⟩ := List.mem_map.mp chosen
  exact ⟨a, (List.of_mem_zip (List.mem_filter.mp inZip).1).1, rfl⟩

theorem survivorsJumpsInside {keep : List Bool} {ops : List Instr} {j : Jump}
    (mem : .jump j ∈ survivors keep ops) : j.target ≤ keep.count true := by
  obtain ⟨op, -, moved⟩ := survivorsMem mem
  cases op with
  | jump old =>
    simp only [Instr.retarget, Instr.jump.injEq] at moved
    rw [moved]
    exact landingLe keep old.target
  | _ => cases moved

theorem selectedAll {α : Type} : ∀ xs : List α, selected (List.replicate xs.length true) xs = xs
  | [] => rfl
  | x :: xs => by
    rw [List.length_cons, List.replicate_succ, selectedCons, if_pos rfl, selectedAll xs]

theorem survivorsAll (ops : List Instr) :
    survivors (List.replicate ops.length true) ops =
      ops.map (Instr.retarget fun t => min t ops.length) := by
  rw [survivors, selectedAll]
  congr 2
  funext t
  exact landingAll ops.length t

/-- Code in the form compaction leaves it in: no label allocated, no `nop` or label, every jump
by index, and no jump to the next instruction that neither pops nor installs a handler. -/
structure Compacted (c : Code) : Prop where
  noLabels : c.labelCount = 0
  noNop : ∀ pc, c.instr? pc ≠ some .nop
  noLabel : ∀ pc L, c.instr? pc ≠ some (.label L)
  byIndex : ∀ (pc : Nat) (j : Jump), c.instr? pc = some (.jump j) → j.symbolic = false
  noJumpToNext : ∀ (pc : Nat) (j : Jump), c.instr? pc = some (.jump j) → j.pop = false →
    j.condition ≠ .handler → j.target ≠ pc + 1

theorem compactedOf {c : Code} (none : c.labelCount = 0)
    (each : ∀ pc op, c.instr? pc = some op → op.byLabel = false ∧ isRedundant pc op = false) :
    c.Compacted where
  noLabels := none
  noNop pc at_pc := by simpa [isRedundant] using (each pc _ at_pc).2
  noLabel pc L at_pc := by simpa [Instr.byLabel] using (each pc _ at_pc).1
  byIndex pc j at_pc := by simpa [Instr.byLabel] using (each pc _ at_pc).1
  noJumpToNext pc j at_pc pop handler := by
    have byIndex : j.symbolic = false := by simpa [Instr.byLabel] using (each pc _ at_pc).1
    simpa [isRedundant, pop, byIndex, handler] using (each pc _ at_pc).2

theorem compactCompacted (c : Code) : c.compact.Compacted := by
  have settles := dropRedundantSettles (c.threaded.size + 1) c.threaded c.laidOut.lines (Nat.lt_succ_self _)
  refine compactedOf (needsRelocationFalse.mp (laidOutSettled c)).1
    fun pc op at_pc => ⟨?_, dropRoundNone settles at_pc⟩
  -- what is left is a threaded instruction, or one pointed elsewhere
  rcases dropRedundantOutcome c.threaded c.laidOut.lines (c.threaded.size + 1) with same | ⟨keep, removed⟩
  · have left : c.compact.instrs = c.threaded := congrArg Prod.fst same
    rw [instr?, left] at at_pc
    exact threadedByIndex c at_pc
  · have mem : op ∈ survivors keep c.threaded.toList := by
      rw [← removed.code]
      exact Array.mem_toList_iff.mpr (Array.mem_of_getElem? at_pc)
    obtain ⟨op', mem', rfl⟩ := survivorsMem mem
    obtain ⟨i, at_i⟩ := List.mem_iff_getElem?.mp mem'
    rw [Instr.retargetByLabel]
    exact threadedByIndex c (by simpa using at_i)

/-- How compaction's result stands to the code it starts from, with `keep` flagging the threaded
instructions that stay: only what compaction may remove is gone, each instruction that stays
finds its line at its new index; when every jump pointed into the code or something was
removed, the result is what `keep` leaves of the threaded code, every jump inside it; and when
nothing was removed, the result is the threaded code, where a jump by index at or past the
end keeps its target. -/
structure KeptBy (c : Code) (keep : List Bool) : Prop where
  length : keep.length = c.size
  removable : ∀ (i : Nat) (op : Instr), keep[i]? = some false → c.threaded[i]? = some op → op.Removable
  lineOf : ∀ i : Nat, keep[i]? = some true → i < 4294967296 →
    c.compact.lineFor? (landing keep i) = c.lineFor? i
  leaves : c.JumpsInside ∨ c.compact.size < c.size →
    c.compact.JumpsInside ∧ c.compact.instrs.toList = survivors keep c.threaded.toList
  whole : c.compact.size = c.size → c.compact.instrs = c.threaded ∧
    ∀ (pc : Nat) (j : Jump), c.instr? pc = some (.jump j) → j.symbolic = false → c.size ≤ j.target →
      c.compact.instr? pc = some (.jump j)

theorem keptByAll {c : Code}
    (same : dropRedundant c.threaded c.laidOut.lines (c.threaded.size + 1) = (c.threaded, c.laidOut.lines)) :
    c.KeptBy (List.replicate c.size true) := by
  have instrs : c.compact.instrs = c.threaded := congrArg Prod.fst same
  have lines : c.compact.lines = c.lines := (congrArg Prod.snd same).trans (laidOutLines c)
  have newSize : c.compact.size = c.size := by
    rw [size, instrs, threadedSize]
  refine ⟨List.length_replicate .., fun i op removed _ => ?_, fun i kept _ => ?_, fun inside => ?_,
    fun _ => ⟨instrs, fun pc j at_pc byIndex past => ?_⟩⟩
  · simp [List.getElem?_replicate] at removed
  · have small : i < c.size := by
      simpa [List.getElem?_replicate] using kept
    rw [landingAll, Nat.min_eq_left (Nat.le_of_lt small), lineForFold, lineForFold, lines]
  · -- nothing was removed, so it was the jumps that all pointed into the code
    have inside : c.JumpsInside := inside.resolve_right (by omega)
    refine ⟨fun pc j at_pc _ => ?_, ?_⟩
    · rw [instr?, instrs] at at_pc
      exact newSize ▸ threadedInside inside pc j at_pc
    -- keeping everything points only jumps past the end elsewhere, and there are none
    rw [instrs, ← threadedSize, ← Array.length_toList, survivorsAll]
    refine (List.map_id _).symm.trans (List.map_congr_left fun op mem => ?_)
    obtain ⟨i, at_i⟩ := List.mem_iff_getElem?.mp mem
    cases op with
    | jump j =>
      have within := threadedInside inside i j (by simpa using at_i)
      rw [Array.length_toList, threadedSize]
      simp [Instr.retarget, Nat.min_eq_left within]
    | _ => rfl
  · rw [instr?, instrs]
    exact threadedPast at_pc byIndex past

theorem keptByRemoved {c : Code} {keep : List Bool}
    (removed : Removed c.threaded.toList c.laidOut.lines.toList keep c.compact.instrs c.compact.lines) :
    c.KeptBy keep := by
  have length : keep.length = c.size := by
    rw [← removed.length, Array.length_toList, threadedSize]
  have newSize : c.compact.size = keep.count true := by
    rw [size, ← Array.length_toList, removed.code, survivorsLength removed.length]
  have smaller : c.compact.size < c.size := by
    have := countTrueLt removed.removedOne
    omega
  refine ⟨length, fun i op gone at_i => removed.removable i op gone (by simpa using at_i),
    fun i kept small => ?_, fun _ => ⟨fun pc j at_pc _ => ?_, removed.code⟩,
    fun same => absurd same (Nat.ne_of_lt smaller)⟩
  · rw [lineForFold, lineForFold, Nat.mod_eq_of_lt (Nat.lt_of_le_of_lt (landingSelf keep i) small),
      Nat.mod_eq_of_lt small, removed.lineOf i kept, laidOutLines]
  · have mem : Instr.jump j ∈ survivors keep c.threaded.toList := by
      rw [← removed.code]
      exact Array.mem_toList_iff.mpr (Array.mem_of_getElem? at_pc)
    exact newSize ▸ survivorsJumpsInside mem

theorem compactKeptBy (c : Code) : ∃ keep, c.KeptBy keep := by
  rcases dropRedundantOutcome c.threaded c.laidOut.lines (c.threaded.size + 1) with same | ⟨keep, removed⟩
  · exact ⟨_, keptByAll same⟩
  · exact ⟨keep, keptByRemoved removed⟩

/-- Compaction leaves well-formed code in normal form and keeps its line map: no label is
left, allocated or used, no `nop`, and no jump to the next instruction that neither pops nor
installs a handler; the line map stays ascending; and one set of flags over the threaded code
says what stays, each instruction that stays with its line, and the whole result: what the
flags keep when every jump pointed into the code or something was removed, and the threaded
code, far jumps as they were, when nothing was. -/
theorem compactNormalForm (c : Code) (wf : c.WellFormed) :
    c.compact.Compacted ∧ Ascending c.compact.lines.toList ∧ ∃ keep, c.KeptBy keep :=
  ⟨compactCompacted c, (compactWellFormed wf).lines.ascending, compactKeptBy c⟩

/-- The unit of a conditional jump over a `nop` and two plain jumps to one place. -/
theorem threadedUnitCompacted :
    let c : Code := { instrs := #[.jump ⟨.ifTrue, true, false, 2⟩, .nop, .jump ⟨.always, false, false, 5⟩,
      .drop 1, .jump ⟨.always, false, false, 5⟩, .drop 1] }
    c.WellFormed ∧ c.compact.Compacted ∧ Ascending c.compact.lines.toList ∧ ∃ keep, c.KeptBy keep := by
  intro c
  have wf : c.WellFormed :=
    ⟨emptyWellFormed.tables.congr rfl rfl rfl rfl (Nat.le_refl _), ⟨List.Pairwise.nil, fun _ none => nomatch none⟩⟩
  exact ⟨wf, compactNormalForm c wf⟩

/-- A jump past the end of code in which nothing is redundant stays past the end. -/
theorem compactKeepsFarJump :
    let c : Code := { instrs := #[.jump ⟨.ifTrue, false, false, 5⟩, .drop 1] }
    c.WellFormed ∧ c.compact.instr? 0 = some (.jump ⟨.ifTrue, false, false, 5⟩) ∧ c.compact.size = 2 := by
  intro c
  refine ⟨⟨emptyWellFormed.tables.congr rfl rfl rfl rfl (Nat.le_refl _),
    ⟨List.Pairwise.nil, fun _ none => nomatch none⟩⟩, ?_, ?_⟩ <;> decide +kernel

end Code

end ScriptEngine
