import Mathlib.Data.Finset.Card
import Mathlib.Logic.Relation
import ScriptEngine.Proofs.CoverageRecord
/-!
Registering a code unit registers what its code literals reach, each unit once: the walk
stops at every unit already registered, so it registers exactly the units reached from the
root along paths of units not registered before. Each new unit with a file adds a function
entry and the lines its file did not list, none hit, and what the record held stays. A
record closed under literals thus gains exactly the units reachable from the root and stays
closed; it opens when a registered unit is given a new code literal.
-/
namespace ScriptEngine

namespace FileHits

/-- `f'` is `f` with lines added at the end, each not hit and once: exactly the lines that
pass `new` and that `f` did not list. -/
def LinesAdded (f f' : FileHits) (new : Nat → Prop) : Prop :=
  ∃ extra : List (Nat × Bool), f'.lines.toList = f.lines.toList ++ extra ∧ (∀ e ∈ extra, e.2 = false) ∧
    (extra.map (·.1)).Nodup ∧ ∀ l, l ∈ extra.map (·.1) ↔ (∀ b, (l, b) ∉ f.lines) ∧ new l

variable {f f' f'' : FileHits} {new new' : Nat → Prop}

theorem LinesAdded.refl (f : FileHits) : LinesAdded f f fun _ => False :=
  ⟨[], by simp, by simp, by simp, by simp⟩

theorem LinesAdded.congr (added : LinesAdded f f' new) (same : ∀ l, (∀ b, (l, b) ∉ f.lines) → (new l ↔ new' l)) :
    LinesAdded f f' new' := by
  obtain ⟨extra, lines, unhit, once, listed⟩ := added
  exact ⟨extra, lines, unhit, once, fun l => (listed l).trans (and_congr_right (same l))⟩

theorem LinesAdded.ofLines {g : FileHits} (added : LinesAdded f f' new) (same : g.lines = f'.lines) :
    LinesAdded f g new := by
  obtain ⟨extra, lines, rest⟩ := added
  exact ⟨extra, same ▸ lines, rest⟩

theorem LinesAdded.listed (added : LinesAdded f f' new) {l : Nat} :
    (∃ b, (l, b) ∈ f'.lines) ↔ (∃ b, (l, b) ∈ f.lines) ∨ ((∀ b, (l, b) ∉ f.lines) ∧ new l) := by
  obtain ⟨extra, lines, unhit, -, listed⟩ := added
  have split : ∀ b, (l, b) ∈ f'.lines ↔ (l, b) ∈ f.lines ∨ (l, b) ∈ extra := fun b => by
    rw [← Array.mem_toList_iff, lines, List.mem_append, Array.mem_toList_iff]
  rw [← listed l]
  constructor
  · rintro ⟨b, mem⟩
    rcases (split b).mp mem with old | added
    · exact .inl ⟨b, old⟩
    · exact .inr (List.mem_map.mpr ⟨_, added, rfl⟩)
  · rintro (⟨b, old⟩ | added)
    · exact ⟨b, (split b).mpr (.inl old)⟩
    · obtain ⟨e, mem, rfl⟩ := List.mem_map.mp added
      exact ⟨e.2, (split e.2).mpr (.inr mem)⟩

theorem LinesAdded.trans (first : LinesAdded f f' new) (next : LinesAdded f' f'' new') :
    LinesAdded f f'' fun l => new l ∨ new' l := by
  obtain ⟨extra, lines, unhit, once, listed⟩ := first
  obtain ⟨extra', lines', unhit', once', listed'⟩ := next
  -- a line added by the second step was listed by neither `f` nor the first step
  have apart : ∀ l ∈ extra'.map (·.1), l ∉ extra.map (·.1) ∧ ∀ b, (l, b) ∉ f.lines := by
    intro l mem
    have unlisted := ((listed' l).mp mem).1
    have old : ∀ b, (l, b) ∈ f.lines → (l, b) ∈ f'.lines := fun b h => by
      rw [← Array.mem_toList_iff, lines]
      exact List.mem_append_left _ (Array.mem_toList_iff.mpr h)
    refine ⟨fun first => ?_, fun b h => unlisted b (old b h)⟩
    obtain ⟨e, memE, rfl⟩ := List.mem_map.mp first
    apply unlisted e.2
    rw [← Array.mem_toList_iff, lines]
    exact List.mem_append_right _ memE
  refine ⟨extra ++ extra', by rw [lines', lines, List.append_assoc], ?_, ?_, fun l => ?_⟩
  · intro e mem
    rcases List.mem_append.mp mem with old | added
    · exact unhit e old
    · exact unhit' e added
  · rw [List.map_append]
    exact List.nodup_append.mpr ⟨once, once', fun a memA b memB same => (apart b memB).1 (same ▸ memA)⟩
  · rw [List.map_append, List.mem_append, listed, listed']
    constructor
    · rintro (⟨unlisted, holds⟩ | ⟨unlisted', holds'⟩)
      · exact ⟨unlisted, .inl holds⟩
      · have mem : l ∈ extra'.map (·.1) := (listed' l).mpr ⟨unlisted', holds'⟩
        exact ⟨(apart l mem).2, .inr holds'⟩
    · rintro ⟨unlisted, holds | holds'⟩
      · exact .inl ⟨unlisted, holds⟩
      · -- listed after the first step means added by it
        by_cases first : l ∈ extra.map (·.1)
        · exact .inl ((listed l).mp first)
        · refine .inr ⟨fun b mem => first ?_, holds'⟩
          rw [← Array.mem_toList_iff, lines] at mem
          rcases List.mem_append.mp mem with old | added
          · exact absurd (Array.mem_toList_iff.mp old) (unlisted b)
          · exact List.mem_map.mpr ⟨_, added, rfl⟩

theorem addLineAdded (f : FileHits) (l : Nat) : LinesAdded f (f.addLine l) (· = l) := by
  unfold addLine
  split
  · rename_i present
    obtain ⟨y, mem, same⟩ := Array.any_eq_true'.mp present
    refine (LinesAdded.refl f).congr fun l' unlisted => ⟨False.elim, fun eq => ?_⟩
    subst eq
    exact unlisted y.2 (by simpa [(beq_iff_eq.mp same).symm] using mem)
  · rename_i absent
    refine ⟨[(l, false)], by simp, by simp, by simp, fun l' => ?_⟩
    simp only [List.map_cons, List.map_nil, List.mem_singleton]
    constructor
    · rintro rfl
      exact ⟨fun b mem => absent (Array.any_eq_true'.mpr ⟨_, mem, by simp⟩), rfl⟩
    · exact fun h => h.2

theorem addLinesAdded (lines : Array (Nat × Nat)) (f : FileHits) :
    LinesAdded f (lines.foldl (fun f x => f.addLine x.2) f) fun l => ∃ p, (p, l) ∈ lines := by
  have members : ∀ l, (∃ p, (p, l) ∈ lines) ↔ ∃ p, (p, l) ∈ lines.toList := by simp
  refine LinesAdded.congr ?_ fun l _ => (members l).symm
  rw [← Array.foldl_toList]
  induction lines.toList generalizing f with
  | nil => exact (LinesAdded.refl f).congr fun l _ => by simp
  | cons x xs ih =>
    rw [List.foldl_cons]
    refine ((addLineAdded f x.2).trans (ih (f.addLine x.2))).congr fun l _ => ?_
    simp only [List.mem_cons]
    constructor
    · rintro (rfl | ⟨p, mem⟩)
      · exact ⟨x.1, .inl rfl⟩
      · exact ⟨p, .inr mem⟩
    · rintro ⟨p, same | mem⟩
      · exact .inl (by rw [← same])
      · exact .inr ⟨p, mem⟩

end FileHits

namespace Coverage

open FileHits

variable {codes : CodeId → Option Code} {cov cov' cov'' : Coverage} {x y root : CodeId}

def Refers (codes : CodeId → Option Code) (x y : CodeId) : Prop :=
  ∃ c, codes x = some c ∧ y ∈ codeLiterals c

def Fresh (codes : CodeId → Option Code) (cov : Coverage) (x : CodeId) : Prop :=
  cov.isRegistered x = false ∧ (codes x).isSome = true

/-- What registering `root` on `cov` reaches: `root` itself, if it is fresh, and every unit at
the end of a path of code literals from it through fresh units. -/
def Unseen (codes : CodeId → Option Code) (cov : Coverage) (root x : CodeId) : Prop :=
  Fresh codes cov root ∧ Relation.ReflTransGen (fun y z => Refers codes y z ∧ Fresh codes cov z) root x

def entryIn (codes : CodeId → Option Code) (name : String) (x : CodeId) : Option FunctionHits :=
  (codes x).bind fun c => if c.file.isEmpty = false ∧ name = c.file then some (entry c) else none

def LineOf (codes : CodeId → Option Code) (name : String) (x : CodeId) (l : Nat) : Prop :=
  ∃ c, codes x = some c ∧ c.file.isEmpty = false ∧ name = c.file ∧ ∃ p, (p, l) ∈ c.lines

/-- `cov'` is `cov` with the units of `new` registered in this order, each once and none
registered before: each adds its function entry to its file, after the entries there, and the
lines of its line map the file did not list, not hit. -/
structure Adds (codes : CodeId → Option Code) (cov cov' : Coverage) (new : List CodeId) : Prop where
  seen : cov'.seen.toList.map (·.1) = cov.seen.toList.map (·.1) ++ new
  fresh : ∀ x ∈ new, Fresh codes cov x
  nodup : new.Nodup
  functions : ∀ name,
    (cov'.file name).functions.toList = (cov.file name).functions.toList ++ new.filterMap (entryIn codes name)
  lines : ∀ name, LinesAdded (cov.file name) (cov'.file name) fun l => ∃ x ∈ new, LineOf codes name x l

theorem registeredIff (cov : Coverage) (x : CodeId) :
    cov.isRegistered x = true ↔ x ∈ cov.seen.toList.map (·.1) := by
  simp only [isRegistered, Array.any_eq_true', beq_iff_eq, List.mem_map, Array.mem_toList_iff]

theorem Adds.registered {new : List CodeId} (adds : Adds codes cov cov' new) (x : CodeId) :
    cov'.isRegistered x = true ↔ cov.isRegistered x = true ∨ x ∈ new := by
  rw [registeredIff, registeredIff, adds.seen, List.mem_append]

theorem Adds.keeps {new : List CodeId} (adds : Adds codes cov cov' new) :
    ∀ x, cov.isRegistered x = true → cov'.isRegistered x = true :=
  fun x old => (adds.registered x).mpr (.inl old)

theorem Fresh.mono (keeps : ∀ x, cov.isRegistered x = true → cov'.isRegistered x = true)
    (fresh : Fresh codes cov' x) : Fresh codes cov x := by
  refine ⟨?_, fresh.2⟩
  cases old : cov.isRegistered x
  · rfl
  · have := keeps x old
    rw [fresh.1] at this
    cases this

theorem Unseen.mono (keeps : ∀ x, cov.isRegistered x = true → cov'.isRegistered x = true)
    (unseen : Unseen codes cov' root x) : Unseen codes cov root x :=
  ⟨unseen.1.mono keeps, Relation.ReflTransGen.mono (fun _ _ step => ⟨step.1, step.2.mono keeps⟩) _ _ unseen.2⟩

theorem Unseen.head (fresh : Fresh codes cov root) (refers : Refers codes root x)
    (unseen : Unseen codes cov x y) : Unseen codes cov root y :=
  ⟨fresh, Relation.ReflTransGen.head ⟨refers, unseen.1⟩ unseen.2⟩

theorem Adds.refl (codes : CodeId → Option Code) (cov : Coverage) : Adds codes cov cov [] where
  seen := by simp
  fresh := by simp
  nodup := List.nodup_nil
  functions := by simp
  lines name := (LinesAdded.refl _).congr fun l _ => by simp

theorem Adds.trans {new new' : List CodeId} (first : Adds codes cov cov' new) (next : Adds codes cov' cov'' new') :
    Adds codes cov cov'' (new ++ new') where
  seen := by rw [next.seen, first.seen, List.append_assoc]
  fresh x mem := by
    rcases List.mem_append.mp mem with old | added
    · exact first.fresh x old
    · exact (next.fresh x added).mono first.keeps
  nodup := by
    -- the first units are registered when the next ones are still fresh
    refine List.nodup_append.mpr ⟨first.nodup, next.nodup, fun a memA b memB same => ?_⟩
    have registered : cov'.isRegistered a = true := (first.registered a).mpr (.inr memA)
    rw [same, (next.fresh b memB).1] at registered
    cases registered
  functions name := by rw [next.functions, first.functions, List.filterMap_append, List.append_assoc]
  lines name := ((first.lines name).trans (next.lines name)).congr fun l _ => by
    simp only [List.mem_append, or_and_right, exists_or]

theorem Adds.record {c : Code} (fresh : cov.isRegistered x = false) (found : codes x = some c) :
    Adds codes cov (cov.record x c) [x] where
  seen := by simp [recordSeen]
  fresh y mem := by
    rw [List.mem_singleton.mp mem]
    exact ⟨fresh, by simp [found]⟩
  nodup := List.nodup_singleton x
  functions name := by
    have entryX : entryIn codes name x =
        if c.file.isEmpty = false ∧ name = c.file then some (entry c) else none := by
      simp [entryIn, found]
    rw [recordFunctions, List.filterMap_cons, entryX, List.filterMap_nil]
    by_cases filed : c.file.isEmpty = false ∧ name = c.file
    · simp only [if_pos filed, Array.toList_push]
    · simp only [if_neg filed, List.append_nil]
  lines name := by
    rw [recordFile]
    by_cases filed : c.file.isEmpty = false ∧ name = c.file
    · rw [if_pos filed]
      refine ((addLinesAdded c.lines (cov.file name)).ofLines rfl).congr fun l _ =>
        ⟨fun ⟨p, line⟩ => ⟨x, List.mem_singleton_self x, c, found, filed.1, filed.2, p, line⟩,
          fun ⟨y, mem, c', found', _, _, line⟩ => ?_⟩
      rw [List.mem_singleton.mp mem, found] at found'
      cases found'
      exact line
    · rw [if_neg filed]
      refine (LinesAdded.refl _).congr fun l _ => ?_
      simp only [false_iff, List.mem_singleton, exists_eq_left, LineOf, found, Option.some.injEq,
        exists_eq_left']
      exact fun ⟨named, same, _⟩ => filed ⟨named, same⟩

/-- What a depth-first search from `roots` has done on `cov`, giving `cov'`: it registered the
units `new`, each reached from a root through fresh units, and it left no existing literal of a
new unit and no existing root unregistered. -/
structure Explored (codes : CodeId → Option Code) (cov : Coverage) (roots : List CodeId)
    (cov' : Coverage) (new : List CodeId) : Prop where
  adds : Adds codes cov cov' new
  reached : ∀ y ∈ new, ∃ x ∈ roots, Unseen codes cov x y
  closed : ∀ y ∈ new, ∀ z, Refers codes y z → (codes z).isSome = true → cov'.isRegistered z = true
  roots : ∀ x ∈ roots, (codes x).isSome = true → cov'.isRegistered x = true

theorem Explored.nil (codes : CodeId → Option Code) (cov : Coverage) : Explored codes cov [] cov [] where
  adds := .refl codes cov
  reached := by simp
  closed := by simp
  roots := by simp

theorem Explored.registered (registered : cov.isRegistered x = true) : Explored codes cov [x] cov [] where
  adds := .refl codes cov
  reached := by simp
  closed := by simp
  roots y mem _ := List.mem_singleton.mp mem ▸ registered

theorem Explored.missing (missing : codes x = none) : Explored codes cov [x] cov [] where
  adds := .refl codes cov
  reached := by simp
  closed := by simp
  roots y mem exists_ := by
    rw [List.mem_singleton.mp mem, missing] at exists_
    cases exists_

theorem Explored.trans {roots roots' new new' : List CodeId} (first : Explored codes cov roots cov' new)
    (next : Explored codes cov' roots' cov'' new') : Explored codes cov (roots ++ roots') cov'' (new ++ new') where
  adds := first.adds.trans next.adds
  reached y mem := by
    rcases List.mem_append.mp mem with old | added
    · obtain ⟨x, root, unseen⟩ := first.reached y old
      exact ⟨x, List.mem_append_left _ root, unseen⟩
    · obtain ⟨x, root, unseen⟩ := next.reached y added
      exact ⟨x, List.mem_append_right _ root, unseen.mono first.adds.keeps⟩
  closed y mem z refers exists_ := by
    rcases List.mem_append.mp mem with old | added
    · exact next.adds.keeps z (first.closed y old z refers exists_)
    · exact next.closed y added z refers exists_
  roots x mem exists_ := by
    rcases List.mem_append.mp mem with old | added
    · exact next.adds.keeps x (first.roots x old exists_)
    · exact next.roots x added exists_

theorem Explored.enter {c : Code} {new : List CodeId} (fresh : Fresh codes cov x) (found : codes x = some c)
    (children : Explored codes (cov.record x c) (codeLiterals c) cov' new) :
    Explored codes cov [x] cov' (x :: new) where
  adds := (Adds.record fresh.1 found).trans children.adds
  reached y mem := by
    rcases List.mem_cons.mp mem with here | deeper
    · rw [here]
      exact ⟨x, List.mem_singleton_self x, fresh, .refl⟩
    · obtain ⟨l, literal, unseen⟩ := children.reached y deeper
      exact ⟨x, List.mem_singleton_self x,
        Unseen.head fresh ⟨c, found, literal⟩ (unseen.mono (Adds.record fresh.1 found).keeps)⟩
  closed y mem z refers exists_ := by
    rcases List.mem_cons.mp mem with here | deeper
    · obtain ⟨c', found', literal⟩ := refers
      rw [here, found] at found'
      cases found'
      exact children.roots z literal exists_
    · exact children.closed y deeper z refers exists_
  roots y mem _ := by
    rw [List.mem_singleton.mp mem]
    exact children.adds.keeps x ((Adds.record fresh.1 found).registered x |>.mpr (.inr (List.mem_singleton_self x)))

theorem Explored.complete {roots new : List CodeId} (ex : Explored codes cov roots cov' new) (root : x ∈ roots)
    (unseen : Unseen codes cov x y) : y ∈ new := by
  obtain ⟨fresh, path⟩ := unseen
  -- along the path: every unit on it was fresh, and the search closed over fresh references
  induction path with
  | refl =>
    rcases (ex.adds.registered x).mp (ex.roots x root fresh.2) with old | added
    · rw [fresh.1] at old
      cases old
    · exact added
  | tail _ step reached =>
    rcases (ex.adds.registered _).mp (ex.closed _ reached _ step.1 step.2.2) with old | added
    · rw [step.2.1] at old
      cases old
    · exact added

/-- The units below `count` that exist and are not registered: what a search can still register. -/
def pending (codes : CodeId → Option Code) (count : Nat) (cov : Coverage) : Nat :=
  ((Finset.range count).filter fun i => cov.isRegistered ⟨i⟩ = false ∧ (codes ⟨i⟩).isSome = true).card

theorem pendingLe (codes : CodeId → Option Code) (count : Nat) (cov : Coverage) :
    pending codes count cov ≤ count :=
  calc pending codes count cov ≤ (Finset.range count).card := Finset.card_filter_le _ _
    _ = count := Finset.card_range count

theorem pendingMono {count : Nat} (keeps : ∀ x, cov.isRegistered x = true → cov'.isRegistered x = true) :
    pending codes count cov' ≤ pending codes count cov := by
  refine Finset.card_le_card fun i mem => ?_
  simp only [Finset.mem_filter] at mem ⊢
  exact ⟨mem.1, Fresh.mono keeps mem.2⟩

theorem pendingRecord {count : Nat} {c : Code} (bound : x.index < count) (fresh : Fresh codes cov x)
    (found : codes x = some c) : pending codes count (cov.record x c) < pending codes count cov := by
  have added := Adds.record fresh.1 found
  refine Finset.card_lt_card ((Finset.ssubset_iff_of_subset fun i mem => ?_).mpr ⟨x.index, ?_, ?_⟩)
  · simp only [Finset.mem_filter] at mem ⊢
    exact ⟨mem.1, Fresh.mono added.keeps mem.2⟩
  · simp only [Finset.mem_filter, Finset.mem_range]
    exact ⟨bound, fresh⟩
  · simp only [Finset.mem_filter, not_and]
    intro _ unregistered
    have registered := (added.registered x).mpr (.inr (List.mem_singleton_self x))
    rw [unregistered] at registered
    cases registered

theorem foldExplores {count fuel : Nat} {f : Coverage → CodeId → Coverage}
    (step : ∀ cov root, pending codes count cov < fuel → ∃ new, Explored codes cov [root] (f cov root) new) :
    ∀ (roots : List CodeId) (cov : Coverage), pending codes count cov < fuel →
      ∃ new, Explored codes cov roots (roots.foldl f cov) new
  | [], cov, _ => ⟨[], .nil codes cov⟩
  | root :: roots, cov, slack => by
    obtain ⟨new, first⟩ := step cov root slack
    obtain ⟨new', rest⟩ := foldExplores step roots (f cov root)
      (lt_of_le_of_lt (pendingMono first.adds.keeps) slack)
    exact ⟨new ++ new', first.trans rest⟩

theorem addFromExplores {count : Nat} (bound : ∀ x c, codes x = some c → x.index < count) :
    ∀ (fuel : Nat) (cov : Coverage) (root : CodeId), pending codes count cov < fuel →
      ∃ new, Explored codes cov [root] (addFrom codes fuel cov root) new
  | 0, _, _, slack => absurd slack (Nat.not_lt_zero _)
  | fuel + 1, cov, root, slack => by
    -- each level of the search registers a unit, so the fuel never runs out first
    by_cases registered : cov.isRegistered root = true
    · rw [addFrom, if_pos registered]
      exact ⟨[], .registered registered⟩
    · rw [addFrom, if_neg registered]
      cases found : codes root with
      | none => exact ⟨[], .missing found⟩
      | some c =>
        have fresh : Fresh codes cov root := ⟨by simpa using registered, by simp [found]⟩
        have fewer := pendingRecord (bound root c found) fresh found
        obtain ⟨new, children⟩ :=
          foldExplores (addFromExplores bound fuel) (codeLiterals c) (cov.record root c) (by omega)
        exact ⟨root :: new, .enter fresh found children⟩

def Reaches (codes : CodeId → Option Code) (root x : CodeId) : Prop :=
  Relation.ReflTransGen (Refers codes) root x ∧ (codes x).isSome = true

def Closed (codes : CodeId → Option Code) (cov : Coverage) : Prop :=
  ∀ x y, cov.isRegistered x = true → Refers codes x y → (codes y).isSome = true → cov.isRegistered y = true

theorem Unseen.reaches (unseen : Unseen codes cov root x) : Reaches codes root x := by
  obtain ⟨fresh, path⟩ := unseen
  induction path with
  | refl => exact ⟨.refl, fresh.2⟩
  | tail _ step reached => exact ⟨reached.1.tail step.1, step.2.2⟩

theorem Closed.unseen (closed : Closed codes cov) (reaches : Reaches codes root x)
    (unregistered : cov.isRegistered x = false) : Unseen codes cov root x := by
  obtain ⟨path, exists_⟩ := reaches
  induction path using Relation.ReflTransGen.head_induction_on with
  | refl => exact ⟨⟨unregistered, exists_⟩, .refl⟩
  | @head y z step _ rest =>
    obtain ⟨c, found, literal⟩ := step
    -- a registered unit here would pass its registration on along the path
    have fresh : Fresh codes cov y := by
      refine ⟨?_, by simp [found]⟩
      cases registered : cov.isRegistered y
      · rfl
      · have := closed _ _ registered ⟨c, found, literal⟩ rest.1.2
        rw [rest.1.1] at this
        cases this
    exact Unseen.head fresh ⟨c, found, literal⟩ rest

theorem Explored.closes {new : List CodeId} (ex : Explored codes cov [root] cov' new)
    (closed : Closed codes cov) : Closed codes cov' := by
  intro x y registered refers exists_
  rcases (ex.adds.registered x).mp registered with old | added
  · exact ex.adds.keeps y (closed x y old refers exists_)
  · exact ex.closed x added y refers exists_

theorem codeBound (m : Machine) : ∀ x c, m.code? x = some c → x.index < m.codes.size :=
  fun _ _ found => (Array.getElem?_eq_some_iff.mp found).1

/-- Registering a unit registers, each once and in search order, exactly the units it reaches
through code literals without passing a registered unit, and nothing else changes but the entries
and the not-hit lines they add. Where every literal of a registered unit was registered with it,
this is every unit the root reaches, and the registration stays closed. -/
theorem addRegistersUnseen (m : Machine) (cov : Coverage) (root : CodeId) :
    (∃ new, Adds m.code? cov (cov.add m.code? m.codes.size root) new ∧
      ∀ x, x ∈ new ↔ Unseen m.code? cov root x) ∧
    (Closed m.code? cov → Closed m.code? (cov.add m.code? m.codes.size root) ∧
      ∀ x, (cov.add m.code? m.codes.size root).isRegistered x = true ↔
        cov.isRegistered x = true ∨ Reaches m.code? root x) := by
  obtain ⟨new, ex⟩ := addFromExplores (codeBound m) (m.codes.size + 1) cov root
    (Nat.lt_succ_of_le (pendingLe _ _ _))
  have ex : Explored m.code? cov [root] (cov.add m.code? m.codes.size root) new := ex
  have members : ∀ x, x ∈ new ↔ Unseen m.code? cov root x := by
    intro x
    constructor
    · intro mem
      obtain ⟨r, first, unseen⟩ := ex.reached x mem
      rwa [List.mem_singleton.mp first] at unseen
    · exact ex.complete (List.mem_singleton_self root)
  refine ⟨⟨new, ex.adds, members⟩, fun closed => ⟨ex.closes closed, fun x => ?_⟩⟩
  rw [ex.adds.registered, members]
  constructor
  · rintro (old | unseen)
    · exact .inl old
    · exact .inr unseen.reaches
  · rintro (old | reaches)
    · exact .inl old
    · cases registered : cov.isRegistered x
      · exact .inr (closed.unseen reaches registered)
      · exact .inl rfl

/-- Two units that refer to each other are registered once each. -/
example :
    (({} : Coverage).add (fun id => #[{ literals := #[.code ⟨1⟩] }, { literals := #[.code ⟨0⟩] }][id.index]?)
      2 ⟨0⟩).seen.map (·.1) = #[⟨0⟩, ⟨1⟩] := by
  decide +kernel

/-- A unit registered before it was given a code literal is not searched again: registering a
unit that refers to it leaves the literal's unit out, though the new root reaches it. -/
theorem literalBehindRegisteredMissed :
    let before : Code := {}
    let cov := ({} : Coverage).add (fun id => #[before][id.index]?) 1 ⟨0⟩
    let m : Machine := { codes := #[{ literals := #[.code ⟨1⟩] }, {}, { literals := #[.code ⟨0⟩] }] }
    Reaches m.code? ⟨2⟩ ⟨1⟩ ∧ cov.isRegistered ⟨1⟩ = false ∧
      (cov.add m.code? m.codes.size ⟨2⟩).isRegistered ⟨1⟩ = false ∧
      (cov.add m.code? m.codes.size ⟨2⟩).registered = 2 := by
  intro before cov m
  have first : Refers m.code? ⟨2⟩ ⟨0⟩ := ⟨_, rfl, by decide⟩
  have second : Refers m.code? ⟨0⟩ ⟨1⟩ := ⟨_, rfl, by decide⟩
  exact ⟨⟨.tail (.single first) second, rfl⟩, by decide +kernel, by decide +kernel, by decide +kernel⟩

end Coverage

end ScriptEngine
