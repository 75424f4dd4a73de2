import ScriptEngine.Proofs.Untouched
/-!
What the coverage recorder records of a run. Registering units only adds to the record: new
slots, function entries not hit and lines not hit. Observing a frame marks the function of
its unit and the line of its next instruction, and nothing else. So, from a record that is
sound for the units it has registered, a run marks a function exactly when the run showed
its unit on top, a line exactly when the run was about to execute an instruction of that
line, and every line of every unit registered along the way is in its file's record.
-/
namespace ScriptEngine

namespace FileHits

variable {f : FileHits} {l l' : Nat} {b : Bool}

@[simp] theorem addLineFunctions : (f.addLine l).functions = f.functions := by
  unfold addLine; split <;> rfl

@[simp] theorem hitLineFunctions : (f.hitLine l).functions = f.functions := by
  unfold hitLine; split <;> rfl

theorem memAddLine {x : Nat × Bool} :
    x ∈ (f.addLine l).lines ↔ x ∈ f.lines ∨ x = (l, false) ∧ ∀ b, (l, b) ∉ f.lines := by
  unfold addLine
  split
  · rename_i listed
    obtain ⟨y, mem, same⟩ := Array.any_eq_true'.mp listed
    refine ⟨.inl, fun h => h.elim id fun ⟨_, absent⟩ => ?_⟩
    exact absurd (show (l, y.2) ∈ f.lines by simpa [(beq_iff_eq.mp same).symm] using mem) (absent _)
  · rename_i unlisted
    simp only [Array.mem_push]
    constructor
    · rintro (old | rfl)
      · exact .inl old
      · exact .inr ⟨rfl, fun b mem => unlisted (Array.any_eq_true'.mpr ⟨_, mem, by simp⟩)⟩
    · rintro (old | ⟨rfl, -⟩)
      · exact .inl old
      · exact .inr rfl

theorem hitAfterAddLine : (l', true) ∈ (f.addLine l).lines ↔ (l', true) ∈ f.lines := by
  rw [memAddLine]
  simp

theorem listedAfterAddLine : (∃ b, (l', b) ∈ (f.addLine l).lines) ↔ (∃ b, (l', b) ∈ f.lines) ∨ l' = l := by
  simp only [memAddLine, Prod.mk.injEq]
  constructor
  · rintro ⟨b, old | ⟨⟨rfl, -⟩, -⟩⟩
    · exact .inl ⟨b, old⟩
    · exact .inr rfl
  · rintro (⟨b, old⟩ | rfl)
    · exact ⟨b, .inl old⟩
    · by_cases listed : ∃ b, (l', b) ∈ f.lines
      · obtain ⟨b, old⟩ := listed
        exact ⟨b, .inl old⟩
      · exact ⟨false, .inr ⟨⟨rfl, rfl⟩, fun b mem => listed ⟨b, mem⟩⟩⟩

/-! Registering a line map adds its lines as not hit: every line it names is listed, no hit
is added and the function entries stay. -/

@[simp] theorem addLinesFunctions (lines : Array (Nat × Nat)) (f : FileHits) :
    (lines.foldl (fun f x => f.addLine x.2) f).functions = f.functions := by
  rw [← Array.foldl_toList]
  induction lines.toList generalizing f with
  | nil => rfl
  | cons x lines ih => rw [List.foldl_cons, ih, addLineFunctions]

theorem hitAfterAddLines (lines : Array (Nat × Nat)) (f : FileHits) :
    (l', true) ∈ (lines.foldl (fun f x => f.addLine x.2) f).lines ↔ (l', true) ∈ f.lines := by
  rw [← Array.foldl_toList]
  induction lines.toList generalizing f with
  | nil => rfl
  | cons x lines ih => rw [List.foldl_cons, ih, hitAfterAddLine]

theorem listedAfterAddLines (lines : Array (Nat × Nat)) (f : FileHits) :
    (∃ b, (l', b) ∈ (lines.foldl (fun f x => f.addLine x.2) f).lines) ↔
      (∃ b, (l', b) ∈ f.lines) ∨ ∃ p, (p, l') ∈ lines := by
  have members : (∃ p, (p, l') ∈ lines) ↔ ∃ p, (p, l') ∈ lines.toList := by simp
  rw [members, ← Array.foldl_toList]
  induction lines.toList generalizing f with
  | nil => simp
  | cons x lines ih =>
    rw [List.foldl_cons]
    refine (ih (f.addLine x.2)).trans ?_
    rw [listedAfterAddLine]
    constructor
    · rintro ((old | rfl) | ⟨p, mem⟩)
      · exact .inl old
      · exact .inr ⟨x.1, by simp⟩
      · exact .inr ⟨p, List.mem_cons_of_mem _ mem⟩
    · rintro (old | ⟨p, mem⟩)
      · exact .inl (.inl old)
      · rcases List.mem_cons.mp mem with same | later
        · exact .inl (.inr (by rw [← same]))
        · exact .inr ⟨p, later⟩

theorem hitAfterHitLine : (l', true) ∈ (f.hitLine l).lines ↔ (l', true) ∈ f.lines ∨ l' = l := by
  unfold hitLine
  split
  · rename_i listed
    simp only [Array.mem_map, Prod.exists]
    constructor
    · rintro ⟨a, h, mem, eq⟩
      by_cases same : a = l
      · subst same
        simp only [beq_self_eq_true, ite_true, Prod.mk.injEq] at eq
        exact .inr eq.1.symm
      · simp only [beq_iff_eq, same, ite_false, Prod.mk.injEq] at eq
        obtain ⟨rfl, rfl⟩ := eq
        exact .inl mem
    · rintro (old | rfl)
      · refine ⟨l', true, old, ?_⟩
        split <;> simp_all
      · obtain ⟨y, mem, same⟩ := Array.any_eq_true'.mp listed
        exact ⟨y.1, y.2, mem, by simp [beq_iff_eq.mp same]⟩
  · simp only [Array.mem_push, Prod.mk.injEq, and_true]

theorem listedAfterHitLine :
    (∃ b, (l', b) ∈ (f.hitLine l).lines) ↔ (∃ b, (l', b) ∈ f.lines) ∨ l' = l := by
  unfold hitLine
  split
  · rename_i listed
    simp only [Array.mem_map, Prod.exists]
    constructor
    · rintro ⟨b, a, h, mem, eq⟩
      by_cases same : a = l
      · subst same
        simp only [beq_self_eq_true, ite_true, Prod.mk.injEq] at eq
        exact .inr eq.1.symm
      · simp only [beq_iff_eq, same, ite_false, Prod.mk.injEq] at eq
        obtain ⟨rfl, rfl⟩ := eq
        exact .inl ⟨_, mem⟩
    · rintro (⟨b, old⟩ | rfl)
      · by_cases same : l' = l
        · exact ⟨true, l', b, old, by simp [same]⟩
        · exact ⟨b, l', b, old, by simp [same]⟩
      · obtain ⟨y, mem, same⟩ := Array.any_eq_true'.mp listed
        exact ⟨true, y.1, y.2, mem, by simp [beq_iff_eq.mp same]⟩
  · simp only [Array.mem_push, Prod.mk.injEq]
    constructor
    · rintro ⟨b, old | ⟨rfl, -⟩⟩
      · exact .inl ⟨b, old⟩
      · exact .inr rfl
    · rintro (⟨b, old⟩ | rfl)
      · exact ⟨b, .inl old⟩
      · exact ⟨true, .inr ⟨rfl, rfl⟩⟩

end FileHits

namespace Coverage

variable {cov cov' : Coverage} {codes : CodeId → Option Code} {id id' : CodeId} {name : String}

/-! ### The record of a file and the registered units -/

theorem fileSetFile (cov : Coverage) (name name' : String) (f : FileHits) :
    (cov.setFile name f).file name' = if name' = name then f else cov.file name' := by
  unfold setFile file
  split
  · rename_i present
    rw [Array.find?_map, Option.map_map]
    have same : ((fun x : String × FileHits => x.1 == name') ∘ fun x : String × FileHits =>
        if x.1 == name then (x.1, f) else (x.1, x.2)) = fun x => x.1 == name' := by
      funext x
      simp only [Function.comp_apply]
      split <;> rfl
    rw [same]
    split
    · rename_i eq
      subst eq
      obtain ⟨y, found⟩ := Option.isSome_iff_exists.mp (Array.find?_isSome.mpr (Array.any_eq_true'.mp present))
      have named := Array.find?_some found
      simp [found, beq_iff_eq.mp named]
    · rename_i other
      cases found : cov.files.find? (fun x => x.1 == name') with
      | none => rfl
      | some y =>
        have named : y.1 = name' := by simpa using Array.find?_some found
        simp [named, other]
  · rename_i absent
    rw [Array.find?_push]
    by_cases eq : name' = name
    · subst eq
      have none : cov.files.find? (fun x => x.1 == name') = none := by
        rw [Array.find?_eq_none]
        intro x mem same
        exact absent (Array.any_eq_true'.mpr ⟨x, mem, same⟩)
      simp [none]
    · have other : (name == name') = false := by simpa using Ne.symm eq
      simp [other, eq]

@[simp] theorem seenSetFile (cov : Coverage) (name : String) (f : FileHits) :
    (cov.setFile name f).seen = cov.seen := by
  unfold setFile; split <;> rfl

theorem registeredOfSlot {s : String × Nat} (slot : cov.slot? id = some s) : cov.isRegistered id = true := by
  unfold slot? at slot
  unfold isRegistered
  obtain ⟨y, found, -⟩ := Option.bind_eq_some_iff.mp slot
  have named := Array.find?_some found
  exact Array.any_eq_true'.mpr ⟨y, Array.mem_of_find?_eq_some found, named⟩

theorem slotUnregistered (fresh : cov.isRegistered id = false) : cov.slot? id = none := by
  cases slot : cov.slot? id with
  | none => rfl
  | some s => rw [registeredOfSlot slot] at fresh; cases fresh

theorem registeredPush {s : Option (String × Nat)} (pushed : cov'.seen = cov.seen.push (id, s)) :
    cov'.isRegistered id' = (cov.isRegistered id' || id == id') := by
  simp [isRegistered, pushed]

theorem slotPush {s : Option (String × Nat)} (pushed : cov'.seen = cov.seen.push (id, s))
    (fresh : cov.isRegistered id = false) : cov'.slot? id' = if id' = id then s else cov.slot? id' := by
  unfold slot?
  rw [pushed, Array.find?_push]
  by_cases eq : id' = id
  · subst eq
    have none : cov.seen.find? (fun x => x.1 == id') = none := by
      rw [Array.find?_eq_none]
      intro x mem same
      have : cov.isRegistered id' = true := Array.any_eq_true'.mpr ⟨x, mem, same⟩
      rw [this] at fresh
      cases fresh
    simp [none]
  · have other : (id == id') = false := by simpa using Ne.symm eq
    simp [other, eq]

theorem slotOfSeen (same : cov'.seen = cov.seen) : cov'.slot? id = cov.slot? id := by
  simp [slot?, same]

theorem registeredOfSeen (same : cov'.seen = cov.seen) : cov'.isRegistered id = cov.isRegistered id := by
  simp [isRegistered, same]

/-! ### What the record answers -/

def FunctionHit (cov : Coverage) (id : CodeId) : Prop :=
  ∃ name i, cov.slot? id = some (name, i) ∧ ((cov.file name).functions[i]?.map (·.hit)) = some true

def LineHit (cov : Coverage) (name : String) (l : Nat) : Prop := (l, true) ∈ (cov.file name).lines

def LineListed (cov : Coverage) (name : String) (l : Nat) : Prop := ∃ b, (l, b) ∈ (cov.file name).lines

/-- What the recorder keeps true of the units it registered, as `codes` has them: a unit
with a file has a slot in that file, its own, with a function entry, and every line of its
line map is in the file's record. -/
structure Sound (codes : CodeId → Option Code) (cov : Coverage) : Prop where
  slotted : ∀ id name i, cov.slot? id = some (name, i) →
    ∃ c, codes id = some c ∧ c.file = name ∧ name.isEmpty = false ∧ i < (cov.file name).functions.size
  distinct : ∀ id id' s, cov.slot? id = some s → cov.slot? id' = some s → id = id'
  filed : ∀ id c, cov.isRegistered id = true → codes id = some c → c.file.isEmpty = false →
    ∃ i, cov.slot? id = some (c.file, i)
  listed : ∀ id c, cov.isRegistered id = true → codes id = some c → c.file.isEmpty = false →
    ∀ p l, (p, l) ∈ c.lines → cov.LineListed c.file l

/-! ### Registering one unit -/

section Record

variable {c : Code}

def entry (c : Code) : FunctionHits := ⟨c.name, c.firstLine?.getD 0, false⟩

theorem recordSeen (cov : Coverage) (id : CodeId) (c : Code) :
    (cov.record id c).seen =
      cov.seen.push (id, if c.file.isEmpty then none else some (c.file, (cov.file c.file).functions.size)) := by
  unfold record
  split
  · simp
  · simp

theorem recordFile (cov : Coverage) (id : CodeId) (c : Code) (name : String) :
    (cov.record id c).file name =
      if c.file.isEmpty = false ∧ name = c.file then
        { lines := (c.lines.foldl (fun f x => f.addLine x.2) (cov.file name)).lines
          functions := (cov.file name).functions.push (entry c) }
      else cov.file name := by
  unfold record
  split
  · rename_i empty
    simp only [empty, Bool.true_eq_false, false_and, ite_false]
    rfl
  · rename_i named
    show (cov.setFile c.file _).file name = _
    rw [fileSetFile]
    by_cases same : name = c.file
    · subst same
      simp [named, entry]
    · simp [same]

end Record

theorem recordRegistered (cov : Coverage) (c : Code) (id' : CodeId) :
    (cov.record id c).isRegistered id' = (cov.isRegistered id' || id == id') :=
  registeredPush (recordSeen cov id c)

theorem recordSlot (fresh : cov.isRegistered id = false) (c : Code) (id' : CodeId) :
    (cov.record id c).slot? id' = if id' = id then
      (if c.file.isEmpty then none else some (c.file, (cov.file c.file).functions.size))
      else cov.slot? id' :=
  slotPush (recordSeen cov id c) fresh

theorem recordFunctions (cov : Coverage) (id : CodeId) (c : Code) (name : String) :
    ((cov.record id c).file name).functions =
      if c.file.isEmpty = false ∧ name = c.file then (cov.file name).functions.push (entry c)
      else (cov.file name).functions := by
  rw [recordFile]
  split <;> rfl

theorem recordEntry (cov : Coverage) (id : CodeId) (c : Code) {name : String} {i : Nat}
    (inside : i < (cov.file name).functions.size) :
    ((cov.record id c).file name).functions[i]? = (cov.file name).functions[i]? := by
  rw [recordFunctions]
  split
  · rw [Array.getElem?_push, if_neg (Nat.ne_of_lt inside)]
  · rfl

theorem recordEntries (cov : Coverage) (id : CodeId) (c : Code) (name : String) :
    (cov.file name).functions.size ≤ ((cov.record id c).file name).functions.size := by
  rw [recordFunctions]
  split
  · simp
  · exact Nat.le_refl _

theorem recordHit (cov : Coverage) (id : CodeId) (c : Code) (name : String) (l : Nat) :
    (cov.record id c).LineHit name l ↔ cov.LineHit name l := by
  unfold LineHit
  rw [recordFile]
  split
  · exact FileHits.hitAfterAddLines c.lines _
  · rfl

theorem recordListed (cov : Coverage) (id : CodeId) (c : Code) (name : String) (l : Nat) :
    (cov.record id c).LineListed name l ↔
      cov.LineListed name l ∨ c.file.isEmpty = false ∧ name = c.file ∧ ∃ p, (p, l) ∈ c.lines := by
  unfold LineListed
  rw [recordFile]
  split
  · rename_i named
    exact (FileHits.listedAfterAddLines c.lines _).trans (or_congr_right (by simp [named]))
  · rename_i other
    exact (or_iff_left fun ⟨named, same, _⟩ => other ⟨named, same⟩).symm


theorem emptySound (codes : CodeId → Option Code) : Sound codes {} where
  slotted _ _ _ slot := by simp [slot?] at slot
  distinct _ _ _ slot := by simp [slot?] at slot
  filed _ _ registered := by simp [isRegistered] at registered
  listed _ _ registered := by simp [isRegistered] at registered

/-! ### Registering units keeps every mark -/

/-- `cov'` is `cov` with more units registered: what `cov` registered keeps its slot, and no
function or line is marked that was not. -/
structure Registration (codes : CodeId → Option Code) (cov cov' : Coverage) : Prop where
  sound : Sound codes cov'
  slots : ∀ id s, cov.slot? id = some s → cov'.slot? id = some s
  registered : ∀ id, cov.isRegistered id = true → cov'.isRegistered id = true
  functions : ∀ id, cov'.FunctionHit id ↔ cov.FunctionHit id
  lines : ∀ name l, cov'.LineHit name l ↔ cov.LineHit name l

theorem Registration.refl (sound : Sound codes cov) : Registration codes cov cov :=
  ⟨sound, fun _ _ => id, fun _ => id, fun _ => .rfl, fun _ _ => .rfl⟩

theorem Registration.trans {cov'' : Coverage} (first : Registration codes cov cov')
    (next : Registration codes cov' cov'') : Registration codes cov cov'' where
  sound := next.sound
  slots id s slot := next.slots id s (first.slots id s slot)
  registered id h := next.registered id (first.registered id h)
  functions id := (next.functions id).trans (first.functions id)
  lines name l := (next.lines name l).trans (first.lines name l)

section Record

variable {c : Code}

theorem recordNewSlot (fresh : cov.isRegistered id = false)
    {s : String × Nat} (slot : (cov.record id c).slot? id = some s) :
    s = (c.file, (cov.file c.file).functions.size) ∧ c.file.isEmpty = false := by
  rw [recordSlot fresh, if_pos rfl] at slot
  split at slot
  · cases slot
  · rename_i named
    exact ⟨(Option.some.inj slot).symm, by simpa using named⟩

theorem recordSound (sound : Sound codes cov) (fresh : cov.isRegistered id = false)
    (found : codes id = some c) : Sound codes (cov.record id c) where
  slotted id' name i slot := by
    by_cases same : id' = id
    · subst same
      obtain ⟨eq, named⟩ := recordNewSlot fresh slot
      cases eq
      refine ⟨c, found, rfl, named, ?_⟩
      rw [recordFunctions, if_pos ⟨named, rfl⟩, Array.size_push]
      exact Nat.lt_succ_self _
    · rw [recordSlot fresh, if_neg same] at slot
      obtain ⟨c', found', file, named, inside⟩ := sound.slotted id' name i slot
      exact ⟨c', found', file, named, Nat.lt_of_lt_of_le inside (recordEntries cov id c name)⟩
  distinct id₁ id₂ s slot₁ slot₂ := by
    -- the fresh slot is past every entry of its file, so no older unit has it
    have older : ∀ id', id' ≠ id → (cov.record id c).slot? id' = some s →
        (cov.record id c).slot? id = some s → False := by
      intro id' other slot' slot
      rw [recordSlot fresh, if_neg other] at slot'
      obtain ⟨rfl, -⟩ := recordNewSlot fresh slot
      obtain ⟨_, -, -, -, inside⟩ := sound.slotted id' _ _ slot'
      exact Nat.lt_irrefl _ inside
    by_cases same₁ : id₁ = id <;> by_cases same₂ : id₂ = id
    · rw [same₁, same₂]
    · subst same₁
      exact (older id₂ same₂ slot₂ slot₁).elim
    · subst same₂
      exact (older id₁ same₁ slot₁ slot₂).elim
    · rw [recordSlot fresh, if_neg same₁] at slot₁
      rw [recordSlot fresh, if_neg same₂] at slot₂
      exact sound.distinct id₁ id₂ s slot₁ slot₂
  filed id' c' registered found' named := by
    rw [recordRegistered] at registered
    by_cases same : id' = id
    · subst same
      rw [found, Option.some.injEq] at found'
      subst found'
      rw [recordSlot fresh, if_pos rfl]
      exact ⟨(cov.file c.file).functions.size, by simp [named]⟩
    · have old : cov.isRegistered id' = true := by simpa [Ne.symm same] using registered
      obtain ⟨i, slot⟩ := sound.filed id' c' old found' named
      exact ⟨i, by rw [recordSlot fresh, if_neg same, slot]⟩
  listed id' c' registered found' named p l mem := by
    rw [recordRegistered] at registered
    rw [recordListed]
    by_cases same : id' = id
    · subst same
      rw [found, Option.some.injEq] at found'
      subst found'
      exact .inr ⟨named, rfl, p, mem⟩
    · have old : cov.isRegistered id' = true := by simpa [Ne.symm same] using registered
      exact .inl (sound.listed id' c' old found' named p l mem)

theorem recordRegisters (sound : Sound codes cov) (fresh : cov.isRegistered id = false)
    (found : codes id = some c) : Registration codes cov (cov.record id c) where
  sound := recordSound sound fresh found
  slots id' s slot := by
    have other : id' ≠ id := fun same => by
      rw [same, slotUnregistered fresh] at slot
      cases slot
    rw [recordSlot fresh, if_neg other, slot]
  registered id' old := by rw [recordRegistered, old, Bool.true_or]
  functions id' := by
    unfold FunctionHit
    by_cases same : id' = id
    · -- the fresh unit's entry is not hit, and it had none before
      subst same
      rw [slotUnregistered fresh]
      simp only [reduceCtorEq, false_and, exists_false, iff_false, not_exists, not_and]
      intro name i slot
      obtain ⟨eq, named⟩ := recordNewSlot fresh slot
      cases eq
      rw [recordFunctions, if_pos ⟨named, rfl⟩, Array.getElem?_push_size]
      simp [entry]
    · rw [recordSlot fresh, if_neg same]
      refine exists_congr fun name => exists_congr fun i => and_congr_right fun slot => ?_
      obtain ⟨_, -, -, -, inside⟩ := sound.slotted id' name i slot
      rw [recordEntry cov id c inside]
  lines name l := recordHit cov id c name l

end Record

theorem addFromRegisters : ∀ (fuel : Nat) (cov : Coverage) (id : CodeId), Sound codes cov →
    Registration codes cov (addFrom codes fuel cov id)
  | 0, cov, _, sound => Registration.refl sound
  | fuel + 1, cov, id, sound => by
    rw [addFrom]
    split
    · exact Registration.refl sound
    · rename_i fresh
      split
      · exact Registration.refl sound
      · rename_i c found
        -- the literals are registered in turn, each from what the ones before left
        have literals : ∀ (ids : List CodeId) (cov' : Coverage), Registration codes cov cov' →
            Registration codes cov (ids.foldl (addFrom codes fuel) cov') := by
          intro ids
          induction ids with
          | nil => exact fun _ h => h
          | cons x xs ih =>
            intro cov' h
            rw [List.foldl_cons]
            exact ih _ (h.trans (addFromRegisters fuel cov' x h.sound))
        exact literals _ _ (recordRegisters sound (by simpa using fresh) found)

theorem addFromRegistersOwn (sound : Sound codes cov) {c : Code} (found : codes id = some c) (fuel : Nat) :
    (addFrom codes (fuel + 1) cov id).isRegistered id = true := by
  rw [addFrom]
  split
  · rename_i registered
    exact registered
  · rename_i fresh
    rw [found]
    dsimp only
    -- the literals' registration keeps what registering the unit itself did
    have literals : ∀ (ids : List CodeId) (cov' : Coverage), Sound codes cov' →
        cov'.isRegistered id = true → (ids.foldl (addFrom codes fuel) cov').isRegistered id = true := by
      intro ids
      induction ids with
      | nil => exact fun _ _ h => h
      | cons x xs ih =>
        intro cov' sound' registered
        have step := addFromRegisters fuel cov' x sound'
        rw [List.foldl_cons]
        exact ih _ step.sound (step.registered id registered)
    exact literals _ _ (recordSound sound (by simpa using fresh) found) (by simp [recordRegistered])

/-! ### Observing a frame marks its function and its line -/

/-- The line of the instruction a frame at `pc` of unit `x` is about to run, if there is
one. -/
def lineAt (codes : CodeId → Option Code) (x : CodeId) (pc : Nat) (l : Nat) : Prop :=
  ∃ c, codes x = some c ∧ pc < c.size ∧ c.lineFor? pc = some l

/-- `g` is `f` with the line of the next instruction marked, if there is one. -/
def LineMarked (codes : CodeId → Option Code) (x : CodeId) (pc : Nat) (f g : FileHits) : Prop :=
  (g = f ∧ ∀ l, ¬lineAt codes x pc l) ∨ ∃ l, lineAt codes x pc l ∧ g = f.hitLine l

theorem LineMarked.hits {x : CodeId} {pc : Nat} {f g : FileHits} (marked : LineMarked codes x pc f g)
    (l : Nat) : (l, true) ∈ g.lines ↔ (l, true) ∈ f.lines ∨ lineAt codes x pc l := by
  rcases marked with ⟨rfl, none⟩ | ⟨l', line, rfl⟩
  · exact (or_iff_left (none l)).symm
  · rw [FileHits.hitAfterHitLine]
    refine or_congr_right ⟨fun same => same ▸ line, fun other => ?_⟩
    obtain ⟨c, found, -, at_l⟩ := other
    obtain ⟨c', found', -, at_l'⟩ := line
    rw [found, Option.some.injEq] at found'
    subst found'
    exact Option.some.inj (at_l.symm.trans at_l')

theorem LineMarked.functions {x : CodeId} {pc : Nat} {f g : FileHits} (marked : LineMarked codes x pc f g) :
    g.functions = f.functions := by
  rcases marked with ⟨rfl, -⟩ | ⟨l', -, rfl⟩
  · rfl
  · exact FileHits.hitLineFunctions

theorem LineMarked.listed {x : CodeId} {pc : Nat} {f g : FileHits} (marked : LineMarked codes x pc f g)
    (l : Nat) (listed : ∃ b, (l, b) ∈ f.lines) : ∃ b, (l, b) ∈ g.lines := by
  rcases marked with ⟨rfl, -⟩ | ⟨l', -, rfl⟩
  · exact listed
  · exact FileHits.listedAfterHitLine.mpr (.inl listed)

section Mark

variable {x : CodeId} {F : String} {i : Nat} {g : FileHits}

/-- Replacing the record of the file of `x`'s slot by one with `x`'s entry hit and maybe one
line more hit. -/
structure Marked (cov : Coverage) (x : CodeId) (F : String) (i : Nat) (g : FileHits)
    (hit : Nat → Prop) : Prop where
  slot : cov.slot? x = some (F, i)
  functions : g.functions = (cov.file F).functions.modify i fun e => { e with hit := true }
  hits : ∀ l, (l, true) ∈ g.lines ↔ (l, true) ∈ (cov.file F).lines ∨ hit l
  listed : ∀ l, (∃ b, (l, b) ∈ (cov.file F).lines) → ∃ b, (l, b) ∈ g.lines

variable {hit : Nat → Prop}

theorem Marked.functionHit (sound : Sound codes cov) (marked : Marked cov x F i g hit) (id : CodeId) :
    (cov.setFile F g).FunctionHit id ↔ cov.FunctionHit id ∨ id = x := by
  unfold FunctionHit
  simp only [slotOfSeen (seenSetFile cov F g), fileSetFile]
  constructor
  · rintro ⟨name, j, slot, hitNow⟩
    by_cases same : name = F ∧ j = i
    · obtain ⟨rfl, rfl⟩ := same
      exact .inr (sound.distinct id x _ slot marked.slot)
    · refine .inl ⟨name, j, slot, ?_⟩
      split at hitNow
      · rename_i eq
        subst eq
        rw [marked.functions, Array.getElem?_modify, if_neg (fun h => same ⟨rfl, h.symm⟩)] at hitNow
        exact hitNow
      · exact hitNow
  · rintro (⟨name, j, slot, hitBefore⟩ | rfl)
    · refine ⟨name, j, slot, ?_⟩
      split
      · rename_i eq
        subst eq
        rw [marked.functions, Array.getElem?_modify]
        split
        · rename_i eq
          subst eq
          obtain ⟨e, found⟩ := Option.map_eq_some_iff.mp hitBefore
          simp [found.1]
        · exact hitBefore
      · exact hitBefore
    · refine ⟨F, i, marked.slot, ?_⟩
      obtain ⟨_, -, -, -, inside⟩ := sound.slotted _ F i marked.slot
      rw [if_pos rfl, marked.functions, Array.getElem?_modify, if_pos rfl, Array.getElem?_eq_getElem inside]
      rfl

theorem Marked.lineHit (marked : Marked cov x F i g hit) (name : String) (l : Nat) :
    (cov.setFile F g).LineHit name l ↔ cov.LineHit name l ∨ name = F ∧ hit l := by
  unfold LineHit
  rw [fileSetFile]
  split
  · rename_i same
    subst same
    rw [marked.hits]
    simp
  · rename_i other
    simp [other]

theorem Marked.sound (sound : Sound codes cov) (marked : Marked cov x F i g hit) :
    Sound codes (cov.setFile F g) where
  slotted id name j slot := by
    rw [slotOfSeen (seenSetFile cov F g)] at slot
    obtain ⟨c, found, file, named, inside⟩ := sound.slotted id name j slot
    refine ⟨c, found, file, named, ?_⟩
    rw [fileSetFile]
    split
    · rename_i same
      subst same
      rw [marked.functions, Array.size_modify]
      exact inside
    · exact inside
  distinct id id' s slot slot' := by
    rw [slotOfSeen (seenSetFile cov F g)] at slot slot'
    exact sound.distinct id id' s slot slot'
  filed id c registered found named := by
    rw [registeredOfSeen (seenSetFile cov F g)] at registered
    rw [slotOfSeen (seenSetFile cov F g)]
    exact sound.filed id c registered found named
  listed id c registered found named p l mem := by
    rw [registeredOfSeen (seenSetFile cov F g)] at registered
    have before := sound.listed id c registered found named p l mem
    unfold LineListed at before ⊢
    rw [fileSetFile]
    split
    · rename_i same
      subst same
      exact marked.listed l before
    · exact before

end Mark

section Observe

variable {count : Nat} {x : CodeId} {pc : Nat}

theorem observeCases (sound : Sound codes cov) (count : Nat) (x : CodeId) (pc : Nat) :
    ∃ cov₁, Registration codes cov cov₁ ∧ (∀ c, codes x = some c → cov₁.isRegistered x = true) ∧
      ((cov₁.slot? x = none ∧ cov.observe codes count x pc = cov₁) ∨
        ∃ F i g, Marked cov₁ x F i g (lineAt codes x pc) ∧ cov.observe codes count x pc = cov₁.setFile F g) := by
  refine ⟨if cov.isRegistered x then cov else cov.add codes count x, ?_, fun c found => ?_, ?_⟩
  · split
    · exact Registration.refl sound
    · exact addFromRegisters _ _ _ sound
  · split
    · assumption
    · exact addFromRegistersOwn sound found count
  · unfold observe
    dsimp only
    generalize (if cov.isRegistered x then cov else cov.add codes count x) = cov₁
    split
    · rename_i slot
      exact .inl ⟨slot, rfl⟩
    · rename_i F i slot
      suffices line : LineMarked codes x pc
          { cov₁.file F with functions := (cov₁.file F).functions.modify i fun g => { g with hit := true } } _ from
        .inr ⟨F, i, _, ⟨slot, line.functions, line.hits, line.listed⟩, rfl⟩
      -- the line marked is the one the unit's line table gives at `pc`, if there is one
      split
      · rename_i c found
        split
        · rename_i inside
          split
          · rename_i l line
            exact .inr ⟨l, ⟨c, found, inside, line⟩, rfl⟩
          · rename_i none
            refine .inl ⟨rfl, fun l at_ => ?_⟩
            obtain ⟨c', found', -, line⟩ := at_
            rw [found, Option.some.injEq] at found'
            subst found'
            rw [none] at line
            cases line
        · rename_i outside
          refine .inl ⟨rfl, fun l at_ => ?_⟩
          obtain ⟨c', found', inside, -⟩ := at_
          rw [found, Option.some.injEq] at found'
          subst found'
          exact outside inside
      · rename_i none
        refine .inl ⟨rfl, fun l at_ => ?_⟩
        obtain ⟨c, found, -⟩ := at_
        rw [none] at found
        cases found

theorem Sound.slotOf (sound : Sound codes cov) {c : Code} (registered : cov.isRegistered x = true)
    (found : codes x = some c) (named : c.file.isEmpty = false) : ∃ i, cov.slot? x = some (c.file, i) :=
  sound.filed x c registered found named

theorem observeSound (sound : Sound codes cov) : Sound codes (cov.observe codes count x pc) := by
  obtain ⟨cov₁, reg, -, none | ⟨F, i, g, marked, eq⟩⟩ := observeCases sound count x pc
  · rw [none.2]
    exact reg.sound
  · rw [eq]
    exact marked.sound reg.sound

theorem observeRegistered (sound : Sound codes cov) (registered : cov.isRegistered id = true) :
    (cov.observe codes count x pc).isRegistered id = true := by
  obtain ⟨cov₁, reg, -, none | ⟨F, i, g, marked, eq⟩⟩ := observeCases sound count x pc
  · rw [none.2]
    exact reg.registered id registered
  · rw [eq, registeredOfSeen (seenSetFile cov₁ F g)]
    exact reg.registered id registered

theorem observeRegistersOwn (sound : Sound codes cov) {c : Code} (found : codes x = some c) :
    (cov.observe codes count x pc).isRegistered x = true := by
  obtain ⟨cov₁, -, own, none | ⟨F, i, g, marked, eq⟩⟩ := observeCases sound count x pc
  · rw [none.2]
    exact own c found
  · rw [eq, registeredOfSeen (seenSetFile cov₁ F g)]
    exact own c found

theorem slottedWhenSeen {cov₁ : Coverage} (sound : Sound codes cov₁)
    (own : ∀ c, codes x = some c → cov₁.isRegistered x = true) (none : cov₁.slot? x = none) {c : Code}
    (found : codes x = some c) (named : c.file.isEmpty = false) : False := by
  obtain ⟨i, slot⟩ := sound.slotOf (own c found) found named
  rw [none] at slot
  cases slot

theorem observeFunctionHit (sound : Sound codes cov) (id : CodeId) :
    (cov.observe codes count x pc).FunctionHit id ↔
      cov.FunctionHit id ∨ id = x ∧ ∃ c, codes x = some c ∧ c.file.isEmpty = false := by
  obtain ⟨cov₁, reg, own, none | ⟨F, i, g, marked, eq⟩⟩ := observeCases sound count x pc
  · rw [none.2, reg.functions]
    refine (or_iff_left fun ⟨_, c, found, named⟩ => ?_).symm
    exact slottedWhenSeen reg.sound own none.1 found named
  · rw [eq, marked.functionHit reg.sound, reg.functions]
    refine or_congr_right ⟨fun same => ⟨same, ?_⟩, fun h => h.1⟩
    obtain ⟨c, found, file, named, -⟩ := reg.sound.slotted x F i marked.slot
    exact ⟨c, found, file ▸ named⟩

theorem observeLineHit (sound : Sound codes cov) (name : String) (l : Nat) :
    (cov.observe codes count x pc).LineHit name l ↔
      cov.LineHit name l ∨ (∃ c, codes x = some c ∧ c.file = name ∧ c.file.isEmpty = false) ∧
        lineAt codes x pc l := by
  obtain ⟨cov₁, reg, own, none | ⟨F, i, g, marked, eq⟩⟩ := observeCases sound count x pc
  · rw [none.2, reg.lines]
    refine (or_iff_left fun ⟨⟨c, found, _, named⟩, _⟩ => ?_).symm
    exact slottedWhenSeen reg.sound own none.1 found named
  · rw [eq, marked.lineHit, reg.lines]
    obtain ⟨c, found, file, named, -⟩ := reg.sound.slotted x F i marked.slot
    refine or_congr_right (and_congr_left fun _ => ⟨?_, ?_⟩)
    · rintro rfl
      exact ⟨c, found, file, file ▸ named⟩
    · rintro ⟨c', found', file', -⟩
      rw [found, Option.some.injEq] at found'
      subst found'
      exact file'.symm.trans file

end Observe

end Coverage

end ScriptEngine
