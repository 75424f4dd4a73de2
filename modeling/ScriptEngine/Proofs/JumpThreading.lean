import Mathlib.Data.Finset.Card
import ScriptEngine.Proofs.CompactForm
/-!
Threading jumps follows chains of plain jumps and nothing else. A plain jump (unconditional,
non-popping, by index) links its position to its target; following the links from a
position gives its chain, and a jump to itself ends it. Threading takes the positions in
order and points each jump at the end of the chain its target starts, in the code as already
threaded before it, following at most the code's size of links. That chase stays on the
chain, so the new target is reached from the old one by plain jumps of the threaded code and
of the original alike, and a process that starts at the old target walks to the new one
changing only its `pc`. The chase stops early at the end of the chain; it runs out of links
only on a chain that runs into a cycle. Where the original chain ends, the jump is pointed
at its end.
-/
namespace ScriptEngine

namespace Code

/-- The next position of a chain of plain jumps: the target of a plain jump at `a`, unless
that is `a` itself. -/
def link? (instrs : Array Instr) (a : Nat) : Option Nat :=
  (instrs[a]? >>= plainJumpTarget?).filter (· != a)

/-- Where `k` links of the chain from `a` lead, if it has that many. -/
def walk (instrs : Array Instr) (a : Nat) : Nat → Option Nat
  | 0 => some a
  | k + 1 => (link? instrs a).bind fun next => walk instrs next k

def Cyclic (instrs : Array Instr) (a : Nat) : Prop :=
  ∃ i j b, i < j ∧ walk instrs a i = some b ∧ walk instrs a j = some b

/-- Threading's turn at `pc`: a jump there is pointed at the end of the chain its target
starts. -/
def threadAt (code : Array Instr) (pc : Nat) : Array Instr :=
  match code[pc]? with
  | some (Instr.jump j) =>
    let t := chaseTarget code j.target code.size
    if t != j.target then code.setIfInBounds pc (.jump { j with target := t }) else code
  | _ => code

/-- The code as threading leaves it after its turns at the positions below `n`. -/
def threadedBelow (instrs : Array Instr) (n : Nat) : Array Instr :=
  (List.range n).foldl threadAt instrs

variable {instrs code : Array Instr} {a b c d n t : Nat} {i j k : Nat}

/-! ### Links and chains -/

theorem linkSome : link? instrs a = some n ↔
    instrs[a]? = some (.jump ⟨.always, false, false, n⟩) ∧ n ≠ a := by
  unfold link?
  constructor
  · intro h
    obtain ⟨plain, ne⟩ := Option.filter_eq_some_iff.mp h
    obtain ⟨op, at_a, target⟩ := Option.bind_eq_some_iff.mp plain
    exact ⟨at_a.trans (congrArg some (Machine.plainJumpTargetSome target)), by simpa using ne⟩
  · rintro ⟨at_a, ne⟩
    rw [at_a]
    simp [plainJumpTarget?, ne]

theorem linkInside (linked : link? instrs a = some n) : a < instrs.size :=
  (Array.getElem?_eq_some_iff.mp (linkSome.mp linked).1).1

theorem chaseStep (fuel : Nat) :
    chaseTarget instrs t (fuel + 1) = ((link? instrs t).map fun n => chaseTarget instrs n fuel).getD t := by
  rw [chaseTarget.eq_2, link?]
  cases instrs[t]? >>= plainJumpTarget? with
  | none => rfl
  | some next =>
    by_cases same : next = t <;> simp [Option.filter, same]

@[simp] theorem walkZero : walk instrs a 0 = some a := rfl

theorem walkSucc : walk instrs a (k + 1) = (link? instrs a).bind (walk instrs · k) := rfl

theorem walkAdd (i j : Nat) : walk instrs a (i + j) = (walk instrs a i).bind (walk instrs · j) := by
  induction i generalizing a with
  | zero => simp
  | succ i ih =>
    rw [Nat.add_right_comm, walkSucc, walkSucc, Option.bind_assoc]
    simp only [ih]

theorem walkSuccRight : walk instrs a (k + 1) = (walk instrs a k).bind (link? instrs) := by
  rw [walkAdd]
  congr 1
  funext b
  simp [walkSucc]

theorem walkFrom (first : walk instrs a i = some b) (later : walk instrs a j = some d) (le : i ≤ j) :
    walk instrs b (j - i) = some d := by
  rw [← Nat.add_sub_cancel' le, walkAdd, first] at later
  simpa using later

theorem walkPrefix (walked : walk instrs a j = some d) (le : i ≤ j) : ∃ b, walk instrs a i = some b := by
  rw [← Nat.add_sub_cancel' le, walkAdd] at walked
  cases passed : walk instrs a i with
  | none => simp [passed] at walked
  | some b => exact ⟨b, rfl⟩

theorem walkPastEnd (walked : walk instrs a k = some d) (last : link? instrs d = none) (lt : k < j) :
    walk instrs a j = none := by
  obtain ⟨r, rfl⟩ := Nat.exists_eq_add_of_lt lt
  rw [Nat.add_assoc, walkAdd, walked]
  simp [walkSucc, last]

theorem endsAcyclic (walked : walk instrs a k = some d) (last : link? instrs d = none)
    (reach : walk instrs a i = some b) (loop : walk instrs b (j + 1) = some b) : False := by
  -- going round the loop `r` times comes back to `b`
  have round : ∀ r, walk instrs a (i + r * (j + 1)) = some b := by
    intro r
    induction r with
    | zero => simpa using reach
    | succ r ih => rw [Nat.succ_mul, ← Nat.add_assoc, walkAdd, ih, Option.bind_some, loop]
  have far := round (k + 1)
  have long : k + 1 ≤ (k + 1) * (j + 1) := Nat.le_mul_of_pos_right (k + 1) (Nat.succ_pos j)
  rw [walkPastEnd walked last (by omega)] at far
  cases far

theorem endUnique (walked : walk instrs a k = some d) (last : link? instrs d = none)
    (walked' : walk instrs a j = some c) (last' : link? instrs c = none) : c = d := by
  rcases Nat.lt_trichotomy j k with lt | rfl | gt
  · rw [walkPastEnd walked' last' lt] at walked
    cases walked
  · rw [walked] at walked'
    exact (Option.some.inj walked').symm
  · rw [walkPastEnd walked last gt] at walked'
    cases walked'

/-! ### The chase -/

theorem chaseWalks (instrs : Array Instr) : ∀ (fuel t : Nat), ∃ k ≤ fuel,
    walk instrs t k = some (chaseTarget instrs t fuel) ∧
      (k < fuel → link? instrs (chaseTarget instrs t fuel) = none)
  | 0, t => ⟨0, Nat.le_refl 0, rfl, fun lt => absurd lt (Nat.lt_irrefl 0)⟩
  | fuel + 1, t => by
    rw [chaseStep]
    cases linked : link? instrs t with
    | none => exact ⟨0, Nat.zero_le _, rfl, fun _ => linked⟩
    | some n =>
      obtain ⟨k, le, walked, stopped⟩ := chaseWalks instrs fuel n
      exact ⟨k + 1, by omega, by simp [walkSucc, linked, walked], fun lt => stopped (by omega)⟩

theorem cyclicOfLong (walked : walk instrs t instrs.size = some b) (more : (link? instrs b).isSome) :
    Cyclic instrs t := by
  let pos := fun i => (walk instrs t i).getD 0
  have at_ : ∀ i ≤ instrs.size, walk instrs t i = some (pos i) := by
    intro i le
    obtain ⟨c, passed⟩ := walkPrefix walked le
    simp [pos, passed]
  have inside : ∀ i ∈ Finset.range (instrs.size + 1), pos i ∈ Finset.range instrs.size := by
    intro i mem
    have le : i ≤ instrs.size := Nat.lt_succ_iff.mp (Finset.mem_range.mp mem)
    rcases Nat.lt_or_eq_of_le le with lt | rfl
    · -- a link leaves every position before the last
      obtain ⟨c, next⟩ := walkPrefix walked (Nat.succ_le_of_lt lt)
      rw [walkSuccRight, at_ i le, Option.bind_some] at next
      exact Finset.mem_range.mpr (linkInside next)
    · obtain ⟨c, next⟩ := Option.isSome_iff_exists.mp more
      rw [at_ _ le, Option.some.inj walked] at *
      exact Finset.mem_range.mpr (linkInside next)
  obtain ⟨x, xmem, y, ymem, ne, same⟩ :=
    Finset.exists_ne_map_eq_of_card_lt_of_maps_to (by simp) inside
  have xle := Nat.lt_succ_iff.mp (Finset.mem_range.mp xmem)
  have yle := Nat.lt_succ_iff.mp (Finset.mem_range.mp ymem)
  rcases Nat.lt_or_gt_of_ne ne with lt | gt
  · exact ⟨x, y, pos x, lt, at_ x xle, same ▸ at_ y yle⟩
  · exact ⟨y, x, pos y, gt, at_ y yle, same ▸ at_ x xle⟩

theorem endsOfAcyclic (acyclic : ¬Cyclic instrs t) :
    ∃ k d, walk instrs t k = some d ∧ link? instrs d = none := by
  have reaches : ∀ r, (∃ k d, walk instrs t k = some d ∧ link? instrs d = none) ∨
      ∃ b, walk instrs t r = some b := by
    intro r
    induction r with
    | zero => exact .inr ⟨t, rfl⟩
    | succ r ih =>
      rcases ih with ended | ⟨b, walked⟩
      · exact .inl ended
      · cases linked : link? instrs b with
        | none => exact .inl ⟨r, b, walked, linked⟩
        | some c => exact .inr ⟨c, by rw [walkSuccRight, walked, Option.bind_some, linked]⟩
  rcases reaches instrs.size with ended | ⟨b, walked⟩
  · exact ended
  · cases linked : link? instrs b with
    | none => exact ⟨_, b, walked, linked⟩
    | some c => exact absurd (cyclicOfLong walked (by simp [linked])) acyclic

/-! ### Threading's turns -/

theorem threadJumpsBelow (instrs : Array Instr) : threadJumps instrs = threadedBelow instrs instrs.size := rfl

theorem threadedBelowSucc (instrs : Array Instr) (n : Nat) :
    threadedBelow instrs (n + 1) = threadAt (threadedBelow instrs n) n := by
  rw [threadedBelow, List.range_succ, List.foldl_append]
  rfl

theorem threadAtSize (code : Array Instr) (pc : Nat) : (threadAt code pc).size = code.size := by
  unfold threadAt
  split
  · dsimp only
    split
    · exact Array.size_setIfInBounds
    · rfl
  · rfl

theorem threadAtGet (code : Array Instr) (pc i : Nat) :
    (threadAt code pc)[i]? = if i = pc then
      code[i]?.map (Instr.retarget fun t => chaseTarget code t code.size) else code[i]? := by
  unfold threadAt
  split
  · rename_i j at_pc
    dsimp only
    by_cases here : i = pc
    · subst here
      rw [if_pos rfl, at_pc]
      split
      · rw [Array.getElem?_setIfInBounds_self_of_lt (Array.getElem?_eq_some_iff.mp at_pc).1]
        rfl
      · rename_i same
        have back : chaseTarget code j.target code.size = j.target := by simpa using same
        rw [at_pc]
        simp [Instr.retarget, back]
    · rw [if_neg here]
      split
      · exact Array.getElem?_setIfInBounds_ne (Ne.symm here)
      · rfl
  · rename_i other
    by_cases here : i = pc
    · subst here
      rw [if_pos rfl]
      cases at_pc : code[i]? with
      | none => rfl
      | some op =>
        cases op with
        | jump j => exact absurd at_pc (other j)
        | _ => rfl
    · rw [if_neg here]

theorem threadedBelowSize (instrs : Array Instr) (n : Nat) : (threadedBelow instrs n).size = instrs.size := by
  induction n with
  | zero => rfl
  | succ n ih => rw [threadedBelowSucc, threadAtSize, ih]

theorem threadedBelowAbove (le : n ≤ i) : (threadedBelow instrs n)[i]? = instrs[i]? := by
  induction n with
  | zero => rfl
  | succ n ih => rw [threadedBelowSucc, threadAtGet, if_neg (by omega), ih (by omega)]

theorem threadedBelowVisited (lt : i < n) :
    (threadedBelow instrs n)[i]? = (threadedBelow instrs (i + 1))[i]? := by
  induction n with
  | zero => omega
  | succ n ih =>
    by_cases here : i = n
    · rw [here]
    · rw [threadedBelowSucc, threadAtGet, if_neg here, ih (by omega)]

theorem threadJumpsGet (instrs : Array Instr) (pc : Nat) :
    (threadJumps instrs)[pc]? = instrs[pc]?.map (Instr.retarget fun t =>
      chaseTarget (threadedBelow instrs pc) t (threadedBelow instrs pc).size) := by
  by_cases inside : pc < instrs.size
  · rw [threadJumpsBelow, threadedBelowVisited inside, threadedBelowSucc, threadAtGet, if_pos rfl,
      threadedBelowAbove (Nat.le_refl pc)]
  · rw [Array.getElem?_eq_none (by rw [threadJumpsSize]; omega), Array.getElem?_eq_none (by omega)]
    rfl

/-! ### Shortened chains -/

/-- `code` is `instrs` with jumps pointed further along their chains: each instruction is the
original one, and a jump's target is reached by plain jumps of `instrs` from its original
target. -/
structure Shortcut (instrs code : Array Instr) : Prop where
  size : code.size = instrs.size
  along : ∀ a : Nat, ∃ t, code[a]? = instrs[a]?.map (Instr.retarget fun _ => t) ∧
    ∀ j : Jump, instrs[a]? = some (.jump j) → ∃ k, walk instrs j.target k = some t

theorem Shortcut.refl (instrs : Array Instr) : Shortcut instrs instrs where
  size := rfl
  along a := by
    cases at_a : instrs[a]? with
    | none => exact ⟨0, rfl, fun j h => by cases h⟩
    | some op =>
      cases op with
      | jump j => exact ⟨j.target, rfl, fun j' h => ⟨0, by cases h; rfl⟩⟩
      | _ => exact ⟨0, rfl, fun j h => by cases h⟩

theorem linkSelf (at_a : instrs[a]? = some (.jump ⟨.always, false, false, a⟩)) : link? instrs a = none := by
  cases linked : link? instrs a with
  | none => rfl
  | some n =>
    obtain ⟨at_a', ne⟩ := linkSome.mp linked
    rw [at_a] at at_a'
    simp only [Option.some.injEq, Instr.jump.injEq, Jump.mk.injEq, true_and] at at_a'
    exact absurd at_a'.symm ne

theorem Shortcut.linkWalks (sc : Shortcut instrs code) (linked : link? code a = some n) :
    ∃ k, walk instrs a (k + 1) = some n := by
  obtain ⟨at_a, ne⟩ := linkSome.mp linked
  obtain ⟨t, was, reach⟩ := sc.along a
  rw [at_a] at was
  obtain ⟨op, orig, moved⟩ := Option.map_eq_some_iff.mp was.symm
  cases op with
  | jump j =>
    obtain ⟨k, walked⟩ := reach j orig
    rcases j with ⟨condition, pop, symbolic, s⟩
    simp only [Instr.retarget, Instr.jump.injEq, Jump.mk.injEq] at moved
    obtain ⟨rfl, rfl, rfl, rfl⟩ := moved
    by_cases self : s = a
    · -- a jump to itself has no link, so the chain from it stays put
      subst self
      cases k with
      | zero => exact absurd (Option.some.inj walked).symm ne
      | succ k => simp [walkSucc, linkSelf orig] at walked
    · exact ⟨k, by rw [walkSucc, linkSome.mpr ⟨orig, self⟩, Option.bind_some, walked]⟩
  | _ => simp [Instr.retarget] at moved

theorem Shortcut.walks (sc : Shortcut instrs code) :
    ∀ {k a b : Nat}, walk code a k = some b → ∃ k', k ≤ k' ∧ walk instrs a k' = some b
  | 0, a, b, walked => ⟨0, Nat.le_refl 0, walked⟩
  | k + 1, a, b, walked => by
    obtain ⟨n, linked, rest⟩ := Option.bind_eq_some_iff.mp walked
    obtain ⟨m, first⟩ := sc.linkWalks linked
    obtain ⟨k', le, second⟩ := sc.walks rest
    exact ⟨m + 1 + k', by omega, by rw [walkAdd, first, Option.bind_some, second]⟩

theorem Shortcut.linkNone (sc : Shortcut instrs code) (last : link? instrs d = none) : link? code d = none := by
  cases linked : link? code d with
  | none => rfl
  | some n =>
    obtain ⟨k, walked⟩ := sc.linkWalks linked
    simp [walkSucc, last] at walked

theorem Shortcut.threadAt (sc : Shortcut instrs code) (pc : Nat) : Shortcut instrs (threadAt code pc) where
  size := by rw [threadAtSize, sc.size]
  along i := by
    rw [threadAtGet]
    split
    · obtain ⟨t, was, reach⟩ := sc.along i
      refine ⟨chaseTarget code t code.size, ?_, fun j orig => ?_⟩
      · rw [was, Option.map_map]
        congr 1
        funext op
        exact Instr.retargetTwice _ _ op
      · -- the chase goes on from the jump's current target, along a chain of the original
        obtain ⟨k, walked⟩ := reach j orig
        obtain ⟨k₁, -, chased, -⟩ := chaseWalks code code.size t
        obtain ⟨k₂, -, walked₂⟩ := sc.walks chased
        exact ⟨k + k₂, by rw [walkAdd, walked, Option.bind_some, walked₂]⟩
    · exact sc.along i

theorem Shortcut.below (instrs : Array Instr) : ∀ n, Shortcut instrs (threadedBelow instrs n)
  | 0 => .refl instrs
  | n + 1 => by
    rw [threadedBelowSucc]
    exact (Shortcut.below instrs n).threadAt n

theorem Shortcut.chaseEnds (sc : Shortcut instrs code) (walked : walk instrs t k = some d)
    (last : link? instrs d = none) : chaseTarget code t code.size = d := by
  obtain ⟨k₁, le₁, chased, stopped⟩ := chaseWalks code code.size t
  obtain ⟨k₂, -, reached⟩ := sc.walks chased
  suffices ended : link? instrs (chaseTarget code t code.size) = none from
    endUnique walked last reached ended
  cases linkedOrig : link? instrs (chaseTarget code t code.size) with
  | none => rfl
  | some s =>
    exfalso
    cases linkedCode : link? code (chaseTarget code t code.size) with
    | some u =>
      -- the chase ran out of links on a cyclic chain, which is a cycle of the original too
      have full : k₁ = code.size := by
        by_contra short
        rw [stopped (by omega)] at linkedCode
        cases linkedCode
      rw [full] at chased
      obtain ⟨i, j, b, lt, first, second⟩ := cyclicOfLong chased (by simp [linkedCode])
      obtain ⟨k₃, le₃, loop⟩ := sc.walks (walkFrom first second lt.le)
      obtain ⟨k₄, -, reach⟩ := sc.walks first
      obtain ⟨r, rfl⟩ : ∃ r, k₃ = r + 1 := ⟨k₃ - 1, by omega⟩
      exact endsAcyclic walked last reach loop
    | none =>
      -- the plain jump there was pointed back at itself, along a cycle of the original
      obtain ⟨at_t', -⟩ := linkSome.mp linkedOrig
      obtain ⟨tC, was, reach⟩ := sc.along (chaseTarget code t code.size)
      obtain ⟨m, back⟩ := reach _ at_t'
      rw [at_t'] at was
      have self : tC = chaseTarget code t code.size := by
        by_contra ne
        rw [linkSome.mpr ⟨was, ne⟩] at linkedCode
        cases linkedCode
      rw [self] at back
      exact endsAcyclic walked last reached (by rw [walkSucc, linkedOrig, Option.bind_some, back])

end Code

/-! ### What a process does along a chain -/

namespace Machine

variable {m : Machine} {pid : Nat} {p : Process} {f : Frame}

theorem plainJumpMoves (found : m.proc? pid = some p) (top : p.frames.back? = some f) {a n : Nat}
    (at_a : (m.codeOrEmpty f.code).instrs[a]? = some (.jump ⟨.always, false, false, n⟩))
    (inside : n ≤ (m.codeOrEmpty f.code).size) :
    (m.setProc (p.modifyTop fun g => { g with pc := a })).step pid =
      (m.setProc (p.modifyTop fun g => { g with pc := n }), .ok .continue) := by
  have found' : (m.setProc (p.modifyTop fun g => { g with pc := a })).proc? pid =
      some (p.modifyTop fun g => { g with pc := a }) :=
    procSetFound found ((Process.modifyTopId p _).trans (procIdOf found))
  have top' : (p.modifyTop fun g => { g with pc := a }).frames.back? = some { f with pc := a } := by
    rw [Process.modifyTopBack, top]
    rfl
  have codeAt : ((m.setProc (p.modifyTop fun g => { g with pc := a })).codeOrEmpty
      { f with pc := a }.code).instr? { f with pc := a }.pc = some (.jump ⟨.always, false, false, n⟩) := by
    rw [setProcCodeOrEmpty]
    exact at_a
  have stepped := plainJumpStep found' top' codeAt (by rw [setProcCodeOrEmpty]; exact inside)
  rw [setProcTwice _ (by simp only [Process.modifyTopId]), Process.modifyTopTwice] at stepped
  exact stepped

theorem walkContinues (found : m.proc? pid = some p) (top : p.frames.back? = some f) :
    ∀ {k a b : Nat}, Code.walk (m.codeOrEmpty f.code).instrs a k = some b →
      b ≤ (m.codeOrEmpty f.code).size →
      Continues pid (m.setProc (p.modifyTop fun g => { g with pc := a }))
        (m.setProc (p.modifyTop fun g => { g with pc := b }))
  | 0, a, b, walked, _ => by
    obtain rfl : a = b := Option.some.inj walked
    exact .refl
  | k + 1, a, b, walked, inside => by
    obtain ⟨n, linked, rest⟩ := Option.bind_eq_some_iff.mp walked
    -- the next position is `b`, or a link leaves it: either way a frame can stand there
    have nextInside : n ≤ (m.codeOrEmpty f.code).size := by
      cases k with
      | zero =>
        obtain rfl : n = b := Option.some.inj rest
        exact inside
      | succ k =>
        obtain ⟨c, linked', -⟩ := Option.bind_eq_some_iff.mp rest
        exact (Code.linkInside linked').le
    exact .head (plainJumpMoves found top (Code.linkSome.mp linked).1 nextInside)
      (walkContinues found top rest inside)

theorem walkToLast (found : m.proc? pid = some p) (top : p.frames.back? = some f) {k a b : Nat}
    (walked : Code.walk (m.codeOrEmpty f.code).instrs a k = some b) (moved : b ≠ a) :
    ∃ c, (m.codeOrEmpty f.code).instrs[c]? = some (.jump ⟨.always, false, false, b⟩) ∧
      Continues pid (m.setProc (p.modifyTop fun g => { g with pc := a }))
        (m.setProc (p.modifyTop fun g => { g with pc := c })) := by
  cases k with
  | zero => exact absurd (Option.some.inj walked).symm moved
  | succ k =>
    rw [Code.walkSuccRight] at walked
    obtain ⟨c, before, linked⟩ := Option.bind_eq_some_iff.mp walked
    exact ⟨c, (Code.linkSome.mp linked).1, walkContinues found top before (Code.linkInside linked).le⟩

end Machine

namespace Code

/-- Threading points each jump along the chain of plain jumps its target starts, and changes
nothing else. In its turn, a jump's target `t` becomes the end `t'` of the chase from `t` in
the code as threaded so far, which follows at most the code's size of links; `t'` is itself a
plain jump elsewhere only when the chain from `t` runs into a cycle, in the code as threaded so
far and in the original alike. The original code leads from `t` to `t'` by plain jumps, so
where the original chain from `t` ends the jump is pointed at its end, and a process that
starts at `t` walks to `t'` changing only its `pc`; when `t'` lies outside the code, the process
walks to the plain jump that points there. -/
theorem threadingFollowsChains (instrs : Array Instr) (pc : Nat) :
    (threadJumps instrs)[pc]? = instrs[pc]?.map (Instr.retarget fun t =>
      chaseTarget (threadedBelow instrs pc) t instrs.size) ∧
    ∀ t, let code := threadedBelow instrs pc
      let t' := chaseTarget code t instrs.size
      (∃ k ≤ instrs.size, walk code t k = some t') ∧
      ((link? code t').isSome → Cyclic code t ∧ Cyclic instrs t) ∧
      (∃ k, walk instrs t k = some t') ∧
      (∀ k d, walk instrs t k = some d → link? instrs d = none → t' = d) ∧
      ∀ (m : Machine) (pid : Nat) (p : Process) (f : Frame), m.proc? pid = some p →
        p.frames.back? = some f → (m.codeOrEmpty f.code).instrs = instrs →
        (t' ≤ instrs.size → Machine.Continues pid (m.setProc (p.modifyTop fun g => { g with pc := t }))
          (m.setProc (p.modifyTop fun g => { g with pc := t' }))) ∧
        (instrs.size < t' → t' ≠ t → ∃ c, instrs[c]? = some (.jump ⟨.always, false, false, t'⟩) ∧
          Machine.Continues pid (m.setProc (p.modifyTop fun g => { g with pc := t }))
            (m.setProc (p.modifyTop fun g => { g with pc := c }))) := by
  refine ⟨by rw [threadJumpsGet, threadedBelowSize], fun t => ?_⟩
  intro code t'
  have sc : Shortcut instrs code := Shortcut.below instrs pc
  obtain ⟨k₁, le₁, chased, stopped⟩ := chaseWalks code code.size t
  rw [sc.size] at le₁ chased stopped
  obtain ⟨k₂, -, reached⟩ := sc.walks chased
  refine ⟨⟨k₁, le₁, chased⟩, fun more => ⟨?_, ?_⟩, ⟨k₂, reached⟩, fun k d walked last => ?_,
    fun m pid p f found top same => ⟨fun inside => ?_, fun outside moved => ?_⟩⟩
  · -- the chase used up its links
    have full : k₁ = instrs.size := by
      by_contra short
      rw [stopped (by omega)] at more
      cases more
    rw [full] at chased
    exact cyclicOfLong (by rw [sc.size]; exact chased) more
  · -- an original chain that ends would have stopped the chase at its end
    by_contra acyclic
    obtain ⟨k, d, walked, last⟩ := endsOfAcyclic acyclic
    have ends := sc.chaseEnds walked last
    rw [sc.size] at ends
    rw [show t' = d from ends, sc.linkNone last] at more
    cases more
  · have ends := sc.chaseEnds walked last
    rwa [sc.size] at ends
  · subst same
    exact Machine.walkContinues found top reached inside
  · subst same
    exact Machine.walkToLast found top reached moved

-- a conditional jump to a plain one is pointed past it; the plain jumps already end their chains
example : threadJumps #[.jump ⟨.ifTrue, true, false, 2⟩, .nop, .jump ⟨.always, false, false, 5⟩,
    .pushLiteral 0, .jump ⟨.always, false, false, 5⟩, .drop 1] =
    #[.jump ⟨.ifTrue, true, false, 5⟩, .nop, .jump ⟨.always, false, false, 5⟩,
      .pushLiteral 0, .jump ⟨.always, false, false, 5⟩, .drop 1] := by decide

-- on a cycle the chase runs out of links where it started
example : threadJumps #[.jump ⟨.always, false, false, 1⟩, .jump ⟨.always, false, false, 2⟩,
    .jump ⟨.always, false, false, 0⟩] = #[.jump ⟨.always, false, false, 1⟩,
      .jump ⟨.always, false, false, 2⟩, .jump ⟨.always, false, false, 0⟩] := by decide

end Code

end ScriptEngine
