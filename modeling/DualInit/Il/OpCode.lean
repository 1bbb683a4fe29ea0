/-!
# Operation codes

The instructions that bodies are made of, as a table: the mnemonic, the byte that encodes the
operation, the operand that follows it, the values it takes from and leaves on the evaluation
stack, and where execution goes next.

Two entries of the table are not the last word.  What a call takes and leaves depends on the
callee, and what a return takes depends on the method it stands in; the table has zeros there,
and `Instruction.effect` supplies the numbers.

Every branch exists twice, with a displacement of one byte and of four.  `shortForm?` and
`longForm` lead from one to the other; they agree on everything but the operand's width.
-/

namespace DualInit

/-- The operand that follows an operation byte. -/
inductive OperandType where
  /-- Nothing follows. -/
  | none
  /-- A branch displacement of one signed byte. -/
  | int8
  /-- An unsigned byte. -/
  | uint8
  /-- A branch displacement of four bytes, signed. -/
  | int32
  | token
deriving DecidableEq, Repr, Inhabited

namespace OperandType

/-- How many bytes an operand takes. -/
def size : OperandType → Nat
  | none => 0
  | int8 | uint8 => 1
  | int32 | token => 4

/-- The name of an operand type. -/
def name : OperandType → String
  | none => "None"
  | int8 => "Int8"
  | uint8 => "UInt8"
  | int32 => "Int32"
  | token => "Token"

end OperandType

/-- Where execution goes after an instruction. -/
inductive Flow where
  /-- On to the next instruction. -/
  | sequential
  /-- To the target if a condition holds, else on to the next instruction. -/
  | conditionalBranch
  /-- To the target. -/
  | unconditionalBranch
  /-- Into another method and then on to the next instruction. -/
  | call
  /-- Out of the method. -/
  | leaving
deriving DecidableEq, Repr, Inhabited

/-- An operation. -/
inductive OpCode where
  | nop
  | ldarg0
  | ldarg1
  | ldarg2
  | ldarg3
  | ldargS
  | ldnull
  | ldcI4One
  | pop
  | call
  | ret
  | brS
  | brfalseS
  | brtrueS
  | br
  | brfalse
  | brtrue
  | callvirt
  | ldstr
deriving DecidableEq, Repr, Inhabited

/-- What the table says about an operation. -/
structure OpCode.Entry where
  mnemonic : String
  byte : UInt8
  operand : OperandType
  pops : Nat
  pushes : Nat
  flow : Flow

namespace OpCode

/-- All operations, in the order of the table. -/
def all : List OpCode :=
  [nop, ldarg0, ldarg1, ldarg2, ldarg3, ldargS, ldnull, ldcI4One, pop, call, ret, brS, brfalseS,
    brtrueS, br, brfalse, brtrue, callvirt, ldstr]

/-- The table. -/
def entry : OpCode → Entry
  | nop      => ⟨"nop",       0x00, .none,  0, 0, .sequential⟩
  | ldarg0   => ⟨"ldarg.0",   0x02, .none,  0, 1, .sequential⟩
  | ldarg1   => ⟨"ldarg.1",   0x03, .none,  0, 1, .sequential⟩
  | ldarg2   => ⟨"ldarg.2",   0x04, .none,  0, 1, .sequential⟩
  | ldarg3   => ⟨"ldarg.3",   0x05, .none,  0, 1, .sequential⟩
  | ldargS   => ⟨"ldarg.s",   0x0E, .uint8, 0, 1, .sequential⟩
  | ldnull   => ⟨"ldnull",    0x14, .none,  0, 1, .sequential⟩
  | ldcI4One => ⟨"ldc.i4.1",  0x17, .none,  0, 1, .sequential⟩
  | pop      => ⟨"pop",       0x26, .none,  1, 0, .sequential⟩
  | call     => ⟨"call",      0x28, .token, 0, 0, .call⟩
  | ret      => ⟨"ret",       0x2A, .none,  0, 0, .leaving⟩
  | brS      => ⟨"br.s",      0x2B, .int8,  0, 0, .unconditionalBranch⟩
  | brfalseS => ⟨"brfalse.s", 0x2C, .int8,  1, 0, .conditionalBranch⟩
  | brtrueS  => ⟨"brtrue.s",  0x2D, .int8,  1, 0, .conditionalBranch⟩
  | br       => ⟨"br",        0x38, .int32, 0, 0, .unconditionalBranch⟩
  | brfalse  => ⟨"brfalse",   0x39, .int32, 1, 0, .conditionalBranch⟩
  | brtrue   => ⟨"brtrue",    0x3A, .int32, 1, 0, .conditionalBranch⟩
  | callvirt => ⟨"callvirt",  0x6F, .token, 0, 0, .call⟩
  | ldstr    => ⟨"ldstr",     0x72, .token, 0, 1, .sequential⟩

/-- How the operation is written. -/
def mnemonic (op : OpCode) : String := op.entry.mnemonic

/-- The byte that encodes the operation. -/
def byte (op : OpCode) : UInt8 := op.entry.byte

/-- The operand behind the operation byte. -/
def operand (op : OpCode) : OperandType := op.entry.operand

/-- How many values the operation takes from the stack, calls and returns left out. -/
def pops (op : OpCode) : Nat := op.entry.pops

/-- How many values the operation leaves on the stack, calls left out. -/
def pushes (op : OpCode) : Nat := op.entry.pushes

/-- Where execution goes next. -/
def flow (op : OpCode) : Flow := op.entry.flow

/-- How many bytes the operation and its operand take. -/
def size (op : OpCode) : Nat :=
  1 + op.operand.size

/-- Every operation takes a byte at least. -/
theorem size_pos (op : OpCode) : 0 < op.size :=
  Nat.lt_of_lt_of_le Nat.zero_lt_one (Nat.le_add_right 1 _)

instance : ToString OpCode := ⟨mnemonic⟩

/-- Whether the operation may go to a target. -/
def isBranch (op : OpCode) : Bool :=
  op.flow == .conditionalBranch || op.flow == .unconditionalBranch

/-- Whether the operation calls a method. -/
def isCall (op : OpCode) : Bool :=
  op.flow == .call

/-- Whether execution never goes on to the next instruction. -/
def isTerminal (op : OpCode) : Bool :=
  op.flow == .unconditionalBranch || op.flow == .leaving

/-! ## The two forms of a branch -/

/-- The form of a long branch with a displacement of one byte. -/
def shortForm? : OpCode → Option OpCode
  | br => some brS
  | brfalse => some brfalseS
  | brtrue => some brtrueS
  | _ => none

/-- The form of a branch with a displacement of four bytes.  All other operations have one form
only. -/
def longForm : OpCode → OpCode
  | brS => br
  | brfalseS => brfalse
  | brtrueS => brtrue
  | op => op

@[simp] theorem longForm_longForm (op : OpCode) : op.longForm.longForm = op.longForm := by
  cases op <;> rfl

theorem longForm_of_shortForm? {op short : OpCode} (h : op.shortForm? = some short) :
    short.longForm = op := by
  cases op <;> cases h <;> rfl

@[simp] theorem flow_longForm (op : OpCode) : op.longForm.flow = op.flow := by
  cases op <;> rfl

@[simp] theorem isBranch_longForm (op : OpCode) : op.longForm.isBranch = op.isBranch := by
  simp [isBranch]

theorem longForm_of_not_isBranch {op : OpCode} (h : op.isBranch = false) : op.longForm = op := by
  revert h
  cases op <;> decide

/-! ## Reading an operation byte -/

/-- The operation that a byte encodes. -/
def ofByte? (b : UInt8) : Option OpCode :=
  all.find? (·.byte == b)

/-- No two operations share a byte. -/
@[simp] theorem ofByte?_byte (op : OpCode) : ofByte? op.byte = some op := by
  cases op <;> decide

end OpCode
end DualInit
