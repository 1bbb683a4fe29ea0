import DualInit.Error
import DualInit.Il.Sequence

/-!
# The evaluation stack

One pass over a sequence follows the depth of the evaluation stack.  Because branches go
forward, the depth at a target is known before the pass gets there: each branch notes the depth
it leaves, and an instruction that is a target takes its depth from that note.

Behind a branch that is always taken and behind a return the code cannot be reached, until a
noted target comes along.  Unreachable code never causes a refusal; its depth is followed all
the same, with a floor at 0, and counts towards the peak.

Depths are signed words of four bytes, and adding to them wraps around.  A pass in which this
happens has come across a depth before that no header can say, so it ends with a refusal.
-/

namespace DualInit
namespace Stack

/-- What the pass knows in front of an instruction. -/
structure Track where
  depth : Int32
  /-- Whether execution can get here. -/
  reachable : Bool
  /-- The greatest depth so far. -/
  peak : Int32
  /-- The depths that branches have left for their targets. -/
  noted : List (Position × Int32)
deriving DecidableEq, Repr, Inhabited

namespace Track

/-- The start of a body: an empty stack, and nothing noted. -/
def start : Track :=
  ⟨0, true, 0, []⟩

/-- Comes to an instruction.  A depth noted for it must agree with the depth of code that runs
on into it, and is taken over. -/
def arrive (position : Position) (t : Track) : Except Error Track :=
  match t.noted.lookup position with
  | none => .ok t
  | some noted =>
    if t.reachable && noted != t.depth then
      .error (.malformed (.mergeMismatch position t.depth.toInt noted.toInt))
    else .ok { t with depth := noted, reachable := true }

/-- Takes values from the stack. -/
def take (position : Position) (i : Instruction) (count : Nat) (t : Track) : Except Error Track :=
  let depth := t.depth - Int32.ofNat count
  if 0 ≤ depth then .ok { t with depth }
  else if t.reachable then .error (.malformed (.underflow position i depth.toInt))
  else .ok { t with depth := 0 }

/-- Leaves values on the stack. -/
def leave (count : Nat) (t : Track) : Track :=
  let depth := t.depth + Int32.ofNat count
  { t with depth, peak := max t.peak depth }

/-- Notes the depth that a branch leaves for its target. -/
def note (target : Position) (t : Track) : Except Error Track :=
  if t.reachable then
    match t.noted.lookup target with
    | none => .ok { t with noted := (target, t.depth) :: t.noted }
    | some existing =>
      if existing = t.depth then .ok t
      else .error (.malformed (.inconsistentTarget target existing.toInt t.depth.toInt))
  else .ok t

/-- Notes the depth for the target of an instruction, if it has one. -/
def noteTarget (i : Instruction) (t : Track) : Except Error Track :=
  match i.target? with
  | none => .ok t
  | some target => note target t

/-- Goes on from an instruction to the next one. -/
def depart (position : Position) (i : Instruction) (t : Track) : Except Error Track :=
  match i.opcode.flow with
  | .sequential | .call => .ok t
  | .conditionalBranch => noteTarget i t
  | .unconditionalBranch => do
    let t ← noteTarget i t
    return { t with reachable := false }
  | .leaving =>
    if t.reachable && t.depth != 0 then
      .error (.malformed (.unbalancedReturn position t.depth.toInt))
    else .ok { t with reachable := false }

/-- Follows one instruction. -/
def step (returnsValue : Bool) (position : Position) (i : Instruction) (t : Track) :
    Except Error Track := do
  let t ← t.arrive position
  let t ← t.take position i (i.effect returnsValue).1
  (t.leave (i.effect returnsValue).2).depart position i

/-- Follows the instructions from an index on. -/
def follow (returnsValue : Bool) : (index : Nat) → List Instruction → Track → Except Error Track
  | _, [], t => .ok t
  | index, i :: code, t => do
    let t ← t.step returnsValue ⟨index⟩ i
    follow returnsValue (index + 1) code t

end Track

/-- The greatest depth that a header can say. -/
def depthLimit : Nat := 65535

/-- The greatest depth of the stack, if the sequence keeps to the discipline. -/
def maxDepth (returnsValue : Bool) (s : Sequence) : Except Error Nat := do
  let t ← Track.follow returnsValue 0 s.instructions .start
  if 0 ≤ t.peak.toInt ∧ t.peak.toInt ≤ depthLimit then return t.peak.toInt.toNat
  else throw (.malformed .stackTooDeep)

end Stack
end DualInit
