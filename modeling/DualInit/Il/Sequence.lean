import DualInit.Il.Instruction

/-!
# Sequences of instructions

A sequence is the code of a body before it is laid out: instructions in order, with branch
targets named by position.  Sequences come from `Builder.finish`, or are the body that only
returns; `IsForward` is the property of both that the encoder relies on.
-/

namespace DualInit

/-- The code of a body, not laid out yet. -/
structure Sequence where
  /-- The instructions, in order. -/
  instructions : List Instruction
deriving DecidableEq, Repr, Inhabited

namespace Sequence

/-- How many instructions a sequence has. -/
def length (s : Sequence) : Nat :=
  s.instructions.length

/-- Whether a sequence has no instructions. -/
def isEmpty (s : Sequence) : Bool :=
  s.instructions.isEmpty

/-- The instruction at a position. -/
def get? (s : Sequence) (p : Position) : Option Instruction :=
  s.instructions[p.index]?

/-- The body that returns at once. -/
def emptyBody : Sequence :=
  ⟨[⟨.ret, .none⟩]⟩

/-- Every target lies behind its branch and inside the sequence. -/
def IsForward (s : Sequence) : Prop :=
  ∀ (index : Nat) (i : Instruction) (target : Position), s.instructions[index]? = some i →
    i.target? = some target → index < target.index ∧ target.index < s.length

theorem isForward_emptyBody : emptyBody.IsForward := by
  intro index i target hi ht
  rcases index with _ | index
  · cases hi
    cases ht
  · cases hi

end Sequence
end DualInit
