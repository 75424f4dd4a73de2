import ScriptEngine.Code.Basic
/-!
Final layout of a code unit. Relocation replaces every label by `nop` and points every jump
by label at the label's instruction (the last one, if a label stands twice), or at the end
of the code if the label is nowhere. Compaction relocates, threads jumps through chains of
unconditional jumps, and then removes, until none is left, the instructions that change
nothing: `nop`, and non-popping jumps (other than handler installs) to the very next
instruction. Jump targets and the line map follow the instructions they pointed at. As
elsewhere, a unit is taken to hold fewer than `2^32` instructions, so every index these
passes compute fits the 32-bit jump targets and line map entries exactly.
-/
namespace ScriptEngine

namespace Code

/-- Where each label stands: the last index of its `label` instruction. -/
def labelAddresses (instrs : Array Instr) : Std.HashMap Nat Nat :=
  instrs.zipIdx.foldl (fun m (op, pc) => match op with
    | .label id => m.insert id pc
    | _ => m) {}

/-- Labels become `nop` and jumps by label become jumps by index; no labels stay allocated. -/
def relocate (c : Code) : Code :=
  let addrs := labelAddresses c.instrs
  let resolve : Instr → Instr
    | .label _ => .nop
    | .jump j =>
      if j.symbolic then .jump { j with target := addrs[j.target]?.getD c.size, symbolic := false }
      else .jump j
    | op => op
  { c with instrs := c.instrs.map resolve, labelCount := 0 }

/-- An unconditional, non-popping jump by index, with its target. -/
def plainJumpTarget? : Instr → Option Nat
  | .jump ⟨.always, false, false, t⟩ => some t
  | _ => none

/-- Follows a chain of plain jumps from `target`, at most `fuel` links, stopping at a jump
to itself. -/
def chaseTarget (instrs : Array Instr) : Nat → Nat → Nat
  | target, 0 => target
  | target, fuel + 1 =>
    match instrs[target]? >>= plainJumpTarget? with
    | some next => if next != target then chaseTarget instrs next fuel else target
    | none => target

/-- Every jump, in order, is pointed at the end of the chain its target starts; later jumps
see the chains as already shortened. -/
def threadJumps (instrs : Array Instr) : Array Instr :=
  (List.range instrs.size).foldl (fun (code : Array Instr) pc => match code[pc]? with
    | some (Instr.jump j) =>
      let t := chaseTarget code j.target code.size
      if t != j.target then code.setIfInBounds pc (.jump { j with target := t }) else code
    | _ => code) instrs

/-- Instructions whose removal changes nothing. -/
def isRedundant (pc : Nat) : Instr → Bool
  | .nop => true
  | .jump j => !j.pop && !j.symbolic && j.condition != .handler && j.target == pc + 1
  | _ => false

/-- `newIndex[i]`: the number of kept instructions before index `i`, for `i ≤ size`. -/
def keptBefore (keep : Array Bool) : Array Nat :=
  (keep.foldl (fun (acc : Array Nat × Nat) k => (acc.1.push acc.2, if k then acc.2 + 1 else acc.2))
    (#[], 0)) |> fun (a, n) => a.push n

/-- The line map moved to new indices, entries landing on one index keeping the last. -/
def remapLines (newIndex : Array Nat) (lines : Array (Nat × Nat)) : Array (Nat × Nat) :=
  lines.foldl (fun acc (pc, line) =>
    let p := newIndex[min pc (newIndex.size - 1)]?.getD 0
    match acc.back? with
    | some (q, _) => if q == p then acc.pop.push (p, line) else acc.push (p, line)
    | none => acc.push (p, line)) #[]

/-- One round: drop the redundant instructions, `none` if there are none. -/
def dropRound (instrs : Array Instr) (lines : Array (Nat × Nat)) :
    Option (Array Instr × Array (Nat × Nat)) :=
  let keep := instrs.zipIdx.map (fun (op, pc) => !isRedundant pc op)
  if keep.all id then none
  else
    let newIndex := keptBefore keep
    let retarget : Instr → Instr
      | .jump j => .jump { j with target := newIndex[min j.target instrs.size]?.getD 0 }
      | op => op
    let kept := (instrs.zip keep).filterMap (fun (op, k) => if k then some (retarget op) else none)
    some (kept, remapLines newIndex lines)

/-- Rounds until nothing is redundant; each round removes an instruction, so `fuel` above
the size suffices. -/
def dropRedundant (instrs : Array Instr) (lines : Array (Nat × Nat)) :
    Nat → Array Instr × Array (Nat × Nat)
  | 0 => (instrs, lines)
  | fuel + 1 =>
    match dropRound instrs lines with
    | some (instrs', lines') => dropRedundant instrs' lines' fuel
    | none => (instrs, lines)

def compact (c : Code) : Code :=
  let c := if c.needsRelocation then c.relocate else c
  let instrs := threadJumps c.instrs
  let (instrs, lines) := dropRedundant instrs c.lines (instrs.size + 1)
  { c with instrs := instrs, lines := lines }

end Code

end ScriptEngine
