import DualInit.Il.Words
import DualInit.Metadata.Flags

/-!
# Reading stored bodies

A stored body begins with a header, whose first two bits say which of the two kinds it is.  The
tiny header is one byte and holds the size of the code; the fat one holds attributes, its own
size, the depth of the stack, the size of the code and the locals.  The code must be exactly as
long as its header says.
-/

namespace DualInit

/-- What a header says besides the size of the code. -/
inductive HeaderForm where
  /-- Nothing: the stack is at most eight deep, and there are no locals. -/
  | tiny
  /-- The greatest depth of the stack, whether locals start out as zero, and their types. -/
  | fat (maxStack : Nat) (initLocals : Bool) (locals : Nat)
deriving DecidableEq, Repr, Inhabited

/-- A body as it is stored. -/
structure StoredBody where
  /-- What its header says. -/
  form : HeaderForm
  /-- Its code. -/
  code : List UInt8
deriving DecidableEq, Repr, Inhabited

namespace StoredBody

/-- How many bytes a fat header takes. -/
def fatSize : Nat := 12

/-- A body behind a fat header. -/
def readFat (bytes : List UInt8) : Option StoredBody :=
  let word (start width : Nat) := Words.decode ((bytes.drop start).take width)
  let code := bytes.drop fatSize
  if fatSize ≤ bytes.length ∧ 4 * (word 0 2 / 0x1000) = fatSize ∧ word 4 4 = code.length then
    some ⟨.fat (word 2 2) (word 0 2 / BodyFlags.initLocals % 2 = 1) (word 8 4), code⟩
  else none

/-- A stored body, if the bytes are one. -/
def read : List UInt8 → Option StoredBody
  | [] => none
  | b :: rest =>
    if b.toNat % 4 = BodyFlags.tinyFormat then
      if b.toNat / 4 = rest.length then some ⟨.tiny, rest⟩ else none
    else if b.toNat % 4 = BodyFlags.fatFormat then readFat (b :: rest)
    else none

/-- Whether locals start out as zero. -/
def initLocals (b : StoredBody) : Bool :=
  match b.form with
  | .tiny => false
  | .fat _ initLocals _ => initLocals

/-- How deep the stack may get; a tiny header stands for eight values. -/
def stackLimit (b : StoredBody) : Nat :=
  match b.form with
  | .tiny => 8
  | .fat maxStack _ _ => maxStack

end StoredBody
end DualInit
