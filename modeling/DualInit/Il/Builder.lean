import DualInit.Error
import DualInit.Il.Sequence

/-!
# Building sequences

A branch goes forward, so its target does not exist when it is emitted.  It is emitted to a
label, and the label is bound to a position once the instruction there has been emitted; only
`Builder.finish` puts positions in place of labels.  It refuses a sequence with a label that
stands for nothing, with a branch that does not go forward, and with an end that execution could
run past.

Every request is a `Build`: it works on the builder where it stands and answers or fails, and a
failure undoes nothing of what was done before it.  Whoever goes on after a failure goes on with
the builder that it has left.
-/

namespace DualInit

/-- What stands in the place of an operand while a sequence is built. -/
inductive Slot where
  | ready (operand : Operand)
  /-- A label whose position is not known yet. -/
  | pending (label : Label)
deriving DecidableEq, Repr, Inhabited

/-- A sequence under construction. -/
structure Builder where
  /-- The operations emitted so far, each with its operand or label. -/
  emitted : Array (OpCode × Slot)
  labels : Nat
  /-- The positions of the labels that are bound. -/
  bindings : List (Label × Position)
deriving DecidableEq, Repr, Inhabited

/-- A request to a builder. -/
abbrev Build (α : Type) : Type :=
  EStateM Error Builder α

namespace Builder

/-- The builder that has emitted nothing. -/
def empty : Builder :=
  ⟨#[], 0, []⟩

/-- The position that the next instruction will have. -/
def next (b : Builder) : Position :=
  ⟨b.emitted.size⟩

/-- Appends an operation. -/
def push (opcode : OpCode) (slot : Slot) (b : Builder) : Builder :=
  { b with emitted := b.emitted.push (opcode, slot) }

@[simp] theorem toList_push (opcode : OpCode) (slot : Slot) (b : Builder) :
    (b.push opcode slot).emitted.toList = b.emitted.toList ++ [(opcode, slot)] := by
  simp [push]

@[simp] theorem labels_push (opcode : OpCode) (slot : Slot) (b : Builder) :
    (b.push opcode slot).labels = b.labels := rfl

@[simp] theorem bindings_push (opcode : OpCode) (slot : Slot) (b : Builder) :
    (b.push opcode slot).bindings = b.bindings := rfl

end Builder

namespace Build

/-- Appends an operation whose operand has been checked, and answers its position. -/
def append (opcode : OpCode) (slot : Slot) : Build Position := fun b =>
  .ok b.next (b.push opcode slot)

/-- Whether an operand other than a callee or a target fits what an operation takes. -/
def fits : OperandType → Operand → Bool
  | .none, .none => true
  | .uint8, .uint8 _ => true
  | .token, .token _ => true
  | _, _ => false

/-- Emits an operation with its operand.  Branches need a label and calls a callee, so neither
is emitted here. -/
def emitWith (opcode : OpCode) (operand : Operand) : Build Position :=
  if opcode.isBranch then
    throw (.wrongOperand .label operand.kind)
  else if opcode.isCall then
    throw (.wrongOperand .callSite operand.kind)
  else if fits opcode.operand operand then
    append opcode (.ready operand)
  else if opcode.operand = .none then
    throw .unexpectedOperand
  else
    throw (.wrongOperand (.ofType opcode.operand) operand.kind)

/-- Emits an operation without an operand. -/
def emit (opcode : OpCode) : Build Position :=
  emitWith opcode .none

/-- Emits a call. -/
def emitCall (opcode : OpCode) (site : CallSite) : Build Position :=
  if opcode.isCall then append opcode (.ready (.call site))
  else throw (.wrongOperand (.ofType opcode.operand) .callSite)

/-- Emits a call on an object, without arguments and without a result. -/
def emitInstanceCall (opcode : OpCode) (method : Token) : Build Position :=
  emitCall opcode (.instanceVoid method)

/-- Emits the shortest operation that loads an argument. -/
def emitLdarg : (index : Nat) → Build Position
  | 0 => emit .ldarg0
  | 1 => emit .ldarg1
  | 2 => emit .ldarg2
  | 3 => emit .ldarg3
  | index =>
    if index < 256 then emitWith .ldargS (.uint8 (UInt8.ofNat index))
    else throw (.malformed (.argumentOutOfRange index))

/-- Hands out a new label. -/
def newLabel : Build Label := fun b =>
  .ok ⟨b.labels⟩ { b with labels := b.labels + 1 }

/-- Fails unless a label has been handed out. -/
def checkLabel (label : Label) : Build Unit := fun b =>
  if label.number < b.labels then .ok () b
  else .error (.invalidBranch (.unknownLabel label)) b

/-- Emits a branch to a label. -/
def branch (opcode : OpCode) (label : Label) : Build Position := do
  if opcode.isBranch then
    checkLabel label
    append opcode (.pending label)
  else
    throw (.invalidBranch (.notABranch opcode))

/-- Binds a label to an instruction that has been emitted. -/
def bind (label : Label) (target : Position) : Build Unit := do
  checkLabel label
  let b ← get
  if b.emitted.size ≤ target.index then
    throw (.invalidBranch (.missingTarget label target))
  else if (b.bindings.lookup label).isSome then
    throw (.duplicateLabel label)
  else
    set { b with bindings := (label, target) :: b.bindings }

end Build

namespace Builder

/-- Puts the position of a label in the place of the label. -/
def resolve (bindings : List (Label × Position)) (index : Nat) (opcode : OpCode) :
    Slot → Except Error Instruction
  | .ready operand => .ok ⟨opcode, operand⟩
  | .pending label =>
    match bindings.lookup label with
    | none => .error (.unboundLabel label)
    | some target =>
      if target.index ≤ index then .error (.invalidBranch (.notForward opcode ⟨index⟩ target))
      else .ok ⟨opcode, .target target⟩

/-- Resolves the operations from position `index` on; the first that cannot be resolved decides
the error. -/
def resolveFrom (bindings : List (Label × Position)) :
    (index : Nat) → List (OpCode × Slot) → Except Error (List Instruction)
  | _, [] => .ok []
  | index, (opcode, slot) :: rest => do
    let instruction ← resolve bindings index opcode slot
    let instructions ← resolveFrom bindings (index + 1) rest
    return instruction :: instructions

/-- The finished sequence. -/
def finish (b : Builder) : Except Error Sequence :=
  match b.emitted.back? with
  | none => .error (.malformed .emptySequence)
  | some (last, _) =>
    if last.isTerminal then return ⟨← resolveFrom b.bindings 0 b.emitted.toList⟩
    else .error (.malformed (.fallsThrough last))

end Builder

/-- The sequence that a request has built from nothing. -/
def Build.sequence {α : Type} (build : Build α) : Except Error Sequence :=
  match build .empty with
  | .ok _ b => b.finish
  | .error e _ => .error e

end DualInit
