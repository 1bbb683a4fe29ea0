import DualInit.Il.Sequence

/-!
# Execution paths of a sequence

A path goes from an instruction to the next one or to its target, and at a conditional branch it
may do either.  `Sequence.Leads` is one such step, and `Sequence.Reaches` says that some path
from the first instruction comes to an instruction with a stack of some depth: here the depth is
a matter of the instructions alone, whatever the values are.

A sequence is disciplined if no path takes more values than there are, every return leaves
nothing behind, and all paths to an instruction come there with one depth.

`Sequence.Walk` lists what a path passes through, `Sequence.depthAfter` adds up what its instructions
take and leave, and `Sequence.ReturnsWithin` says of all paths from an instruction that they come to
a return.
-/

namespace DualInit
namespace Sequence

/-- A path may go from the instruction at one index to the one at another. -/
inductive Leads (s : Sequence) : Nat → Nat → Prop where
  | next {index : Nat} {i : Instruction} (hi : s.instructions[index]? = some i)
      (h : i.opcode.isTerminal = false) : Leads s index (index + 1)
  | jump {index : Nat} {i : Instruction} {target : Position}
      (hi : s.instructions[index]? = some i) (ht : i.target? = some target) :
      Leads s index target.index

/-- Some path from the first instruction comes to an index with a stack of some depth. -/
inductive Reaches (returnsValue : Bool) (s : Sequence) : Nat → Nat → Prop where
  /-- The first instruction is reached with an empty stack. -/
  | start : Reaches returnsValue s 0 0
  /-- From an instruction that finds the values it takes, a path leads on. -/
  | step {index next depth : Nat} {i : Instruction} (h : Reaches returnsValue s index depth)
      (hi : s.instructions[index]? = some i) (hp : (i.effect returnsValue).1 ≤ depth)
      (hl : s.Leads index next) :
      Reaches returnsValue s next (depth - (i.effect returnsValue).1 + (i.effect returnsValue).2)

/-- The paths of a sequence keep to the discipline of the stack. -/
structure Disciplined (returnsValue : Bool) (s : Sequence) : Prop where
  /-- No instruction takes more values than there are. -/
  takes : ∀ {index depth : Nat} {i : Instruction}, s.Reaches returnsValue index depth →
    s.instructions[index]? = some i → (i.effect returnsValue).1 ≤ depth
  /-- Every return leaves nothing behind. -/
  returns : ∀ {index depth : Nat} {i : Instruction}, s.Reaches returnsValue index depth →
    s.instructions[index]? = some i → i.opcode.flow = .leaving →
      depth = (i.effect returnsValue).1
  /-- All paths to an instruction come there with one depth. -/
  agrees : ∀ {index depth other : Nat}, s.Reaches returnsValue index depth →
    s.Reaches returnsValue index other → depth = other

/-- The indices that a path passes through, from its first instruction to its last. -/
inductive Walk (s : Sequence) : Nat → List Nat → Prop where
  | stay (index : Nat) : Walk s index [index]
  | go {index next : Nat} {rest : List Nat} (hl : s.Leads index next) (h : Walk s next rest) :
      Walk s index (index :: rest)

/-- The depth of the stack behind an instruction, from the depth in front of it.  Depths are integers
here, because nothing says that a path finds the values that it takes. -/
def depthBehind (returnsValue : Bool) (s : Sequence) (depth : Int) (index : Nat) : Int :=
  match s.instructions[index]? with
  | none => depth
  | some i => depth - (i.effect returnsValue).1 + (i.effect returnsValue).2

/-- The depth of the stack behind the last instruction of a path that starts with an empty stack. -/
def depthAfter (returnsValue : Bool) (s : Sequence) (path : List Nat) : Int :=
  path.foldl (s.depthBehind returnsValue) 0

/-- Whichever way the path from an index goes, it comes to a return, and executes no more
instructions than allowed, the return among them. -/
inductive ReturnsWithin (s : Sequence) : (allowed index : Nat) → Prop where
  | returns {allowed index : Nat} {i : Instruction} (hi : s.instructions[index]? = some i)
      (hret : i.opcode = .ret) : ReturnsWithin s (allowed + 1) index
  /-- The path goes on, and comes to a return from wherever it may go. -/
  | goes {allowed index : Nat} (hmoves : ∃ next, s.Leads index next)
      (h : ∀ next, s.Leads index next → ReturnsWithin s allowed next) :
      ReturnsWithin s (allowed + 1) index

end Sequence
end DualInit
