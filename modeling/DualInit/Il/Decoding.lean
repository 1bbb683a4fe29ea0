import DualInit.Il.Sequence
import DualInit.Il.Words

/-!
# Reading code bytes

Code is read from its first byte on: an operation byte, an operand of the size that the table
gives for the operation, and so on until nothing is left.  Nothing but the table of operations
is used, so what is read does not depend on how the code was made.

A branch is read with its displacement, which counts from the byte behind the instruction.
`Decoded.Represents` says when an instruction that was read is a given one of a sequence, up to
the form of a branch and the effect of a callee, neither of which code can tell.
-/

namespace DualInit

/-- An operand as it stands in code. -/
inductive RawOperand where
  | none
  | uint8 (value : UInt8)
  | token (token : Token)
  /-- How far a branch goes from the byte behind it. -/
  | displacement (bytes : Int)
deriving DecidableEq, Repr, Inhabited

/-- An instruction as it stands in code. -/
structure Decoded where
  offset : Nat
  opcode : OpCode
  operand : RawOperand
deriving DecidableEq, Repr, Inhabited

namespace Decoded

/-- The offset of the byte behind an instruction. -/
def endOffset (d : Decoded) : Nat :=
  d.offset + d.opcode.size

/-- The offset that a branch goes to. -/
def targetOffset? (d : Decoded) : Option Int :=
  match d.operand with
  | .displacement bytes => some (d.endOffset + bytes)
  | _ => Option.none

/-! ## Reading one instruction -/

/-- A word of so many bytes, read as a signed number. -/
def signed (width n : Nat) : Int :=
  if 2 * n < Words.limit width then n else (n : Int) - Words.limit width

/-- The operand that bytes stand for. -/
def operandOf (type : OperandType) (bytes : List UInt8) : RawOperand :=
  match type with
  | .none => .none
  | .uint8 => .uint8 (UInt8.ofNat (Words.decode bytes))
  | .token => .token ⟨UInt32.ofNat (Words.decode bytes)⟩
  | .int8 => .displacement (signed 1 (Words.decode bytes))
  | .int32 => .displacement (signed 4 (Words.decode bytes))

/-- The instruction at the start of some bytes, which stand at an offset. -/
def readOne (offset : Nat) : List UInt8 → Option Decoded
  | [] => none
  | b :: rest => do
    let opcode ← OpCode.ofByte? b
    let size := opcode.operand.size
    if rest.length < size then none
    else return ⟨offset, opcode, operandOf opcode.operand (rest.take size)⟩

/-- The instruction whose first byte is at an offset of the code. -/
def fetch (code : List UInt8) (offset : Nat) : Option Decoded :=
  readOne offset (code.drop offset)

/-! ## Reading all of them -/

/-- The instructions of bytes that stand at an offset, as many as allowed; `none` if the bytes
are not instructions from first to last. -/
def readFrom : (count offset : Nat) → List UInt8 → Option (List Decoded)
  | _, _, [] => some []
  | 0, _, _ :: _ => none
  | count + 1, offset, b :: rest => do
    let d ← readOne offset (b :: rest)
    return d :: (← readFrom count d.endOffset (rest.drop d.opcode.operand.size))

/-- The instructions of code.  Each takes a byte at least, so there are not more of them than
bytes. -/
def readAll (code : List UInt8) : Option (List Decoded) :=
  readFrom code.length 0 code

/-! ## What was read and what was meant -/

/-- The operand that was read is the one of a sequence whose instructions have these offsets. -/
def OperandMatches (offsets : List Nat) (d : Decoded) : Operand → Prop
  | .none => d.operand = .none
  | .uint8 value => d.operand = .uint8 value
  | .token token => d.operand = .token token
  | .call site => d.operand = .token site.method
  | .target target => ∃ offset : Nat, offsets[target.index]? = some offset ∧
      d.targetOffset? = some (offset : Int)

/-- The instruction that was read is a given one of a sequence whose instructions have these
offsets; a branch may be in either form. -/
def Represents (offsets : List Nat) (index : Nat) (i : Instruction) (d : Decoded) : Prop :=
  offsets[index]? = some d.offset ∧ d.opcode.longForm = i.opcode.longForm ∧
    OperandMatches offsets d i.operand

end Decoded
end DualInit
