import DualInit.Token
import DualInit.Il.OpCode

/-!
# Instructions

An instruction is an operation with its operand.  Branch operands never hold byte offsets: they
name the target by its position in the sequence, and distances exist only once a sequence is
laid out.  Call operands carry the callee's effect on the stack, because the table of operations
cannot know it.

`Operand.fits` says which kind of operand an operation takes.
-/

namespace DualInit

/-- The place of an instruction in its sequence, counted from 0. -/
structure Position where
  /-- The count of instructions in front of it. -/
  index : Nat
deriving DecidableEq, Repr, Inhabited

instance : ToString Position := ⟨fun p => "IL#" ++ toString p.index⟩

/-- A name for a position that is not known yet. -/
structure Label where
  /-- Labels are numbered in the order in which they are handed out. -/
  number : Nat
deriving DecidableEq, Repr, Inhabited

instance : ToString Label := ⟨fun l => "L" ++ toString l.number⟩

/-- The callee of a call and what it does to the stack. -/
structure CallSite where
  method : Token
  /-- How many values the call takes, the object it is made on included. -/
  pops : UInt8
  pushes : UInt8
deriving DecidableEq, Repr, Inhabited

/-- A call on an object, without arguments and without a result. -/
def CallSite.instanceVoid (method : Token) : CallSite :=
  ⟨method, 1, 0⟩

/-- What an operation is applied to. -/
inductive Operand where
  | none
  | uint8 (value : UInt8)
  | token (token : Token)
  | call (site : CallSite)
  | target (position : Position)
deriving DecidableEq, Repr, Inhabited

/-- The kinds of operands. -/
inductive OperandKind where
  | none
  | uint8
  | token
  | callSite
  | branchTarget
deriving DecidableEq, Repr, Inhabited

/-- The name of a kind of operand. -/
def OperandKind.name : OperandKind → String
  | none => "none"
  | uint8 => "uint8"
  | token => "token"
  | callSite => "call site"
  | branchTarget => "branch target"

namespace Operand

/-- The kind of an operand. -/
def kind : Operand → OperandKind
  | none => .none
  | uint8 _ => .uint8
  | token _ => .token
  | call _ => .callSite
  | target _ => .branchTarget

end Operand

/-- The kind of operand that an operation takes. -/
def OpCode.operandKind (op : OpCode) : OperandKind :=
  if op.isBranch then .branchTarget
  else if op.isCall then .callSite
  else match op.operand with
    | .uint8 => .uint8
    | .token => .token
    | _ => .none

/-- An operation with its operand. -/
structure Instruction where
  opcode : OpCode
  operand : Operand
deriving DecidableEq, Repr, Inhabited

namespace Instruction

/-- The target, if the instruction is a branch. -/
def target? (i : Instruction) : Option Position :=
  match i.operand with
  | .target p => some p
  | _ => none

/-- The callee, if the instruction is a call. -/
def callee? (i : Instruction) : Option Token :=
  match i.operand with
  | .call site => some site.method
  | _ => none

/-- The operand is of the kind that the operation takes. -/
def WellFormed (i : Instruction) : Prop :=
  i.operand.kind = i.opcode.operandKind

instance (i : Instruction) : Decidable i.WellFormed :=
  inferInstanceAs (Decidable (_ = _))

/-- How many values an instruction takes from the stack, and how many it leaves there.  A return
takes the value it returns, if the method returns one. -/
def effect (returnsValue : Bool) (i : Instruction) : Nat × Nat :=
  match i.operand with
  | .call site => (site.pops.toNat, site.pushes.toNat)
  | _ =>
    if i.opcode.flow = .leaving then (if returnsValue then 1 else 0, 0)
    else (i.opcode.pops, i.opcode.pushes)

/-- An instruction is written as its mnemonic with the operand behind it; of a callee only the
token is shown. -/
def text (i : Instruction) : String :=
  match i.operand with
  | .none => i.opcode.mnemonic
  | .uint8 value => i.opcode.mnemonic ++ " " ++ toString value.toNat
  | .token token => i.opcode.mnemonic ++ " " ++ token.text
  | .call site => i.opcode.mnemonic ++ " " ++ site.method.text
  | .target position => i.opcode.mnemonic ++ " " ++ toString position

instance : ToString Instruction := ⟨text⟩

end Instruction
end DualInit
