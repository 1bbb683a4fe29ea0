import DualInit.Il.Layout
import DualInit.Il.Stack
import DualInit.Il.Words
import DualInit.Metadata.Flags

/-!
# Encoding of bodies

A sequence becomes bytes in three steps: its instructions get their final forms, the evaluation
stack is checked, and every operation is written with its operand behind it.  `encode` refuses a
sequence whose targets do not lie ahead before it does anything else, and names the fault of the
stack in preference to one of the bytes.

The code of a method is stored behind a header.  The tiny header is a single byte and can say
nothing but the size of up to 63 bytes of code; whatever it cannot express takes the fat header
of twelve bytes.
-/

namespace DualInit

/-- The code bytes of a body and what its header needs to know. -/
structure EncodedBody where
  code : List UInt8
  /-- The greatest depth of the evaluation stack. -/
  maxStack : UInt16
  /-- The offset of every instruction, as the layout has it. -/
  starts : List UInt32
deriving DecidableEq, Repr, Inhabited

/-- The offset of every instruction, as a number. -/
def EncodedBody.offsets (b : EncodedBody) : List Nat :=
  b.starts.map (·.toNat)

namespace Encoding

/-- The bytes of an operand; a displacement is measured with some offsets. -/
def operandBytes (offsets : List UInt32) (index : Nat) (form : OpCode) :
    Operand → Except Error (List UInt8)
  | .none => .ok []
  | .uint8 value => .ok [value]
  | .token token => .ok (Words.encode 4 token.value.toNat)
  | .call site => .ok (Words.encode 4 site.method.value.toNat)
  | .target target =>
    let displacement := Layout.displacement offsets index target.index form
    let width := if form.operand = .int8 then 1 else 4
    if Words.fits width displacement then .ok (Words.encodeSigned width displacement)
    else .error (.invalidBranch (.tooFar displacement form))

/-- The bytes of the instructions from an index on. -/
def bytesFrom (offsets : List UInt32) :
    (index : Nat) → List Instruction → List OpCode → Except Error (List UInt8)
  | index, i :: code, form :: rest => do
    let operand ← operandBytes offsets index form i.operand
    let bytes ← bytesFrom offsets (index + 1) code rest
    return form.byte :: (operand ++ bytes)
  | _, _, _ => .ok []

/-- Refuses an instruction whose target does not lie ahead and inside a sequence of the given
length. -/
def checkTarget (length index : Nat) (i : Instruction) : Except Error Unit :=
  match i.target? with
  | none => .ok ()
  | some target =>
    if index < target.index ∧ target.index < length then .ok ()
    else .error (.invalidBranch (.noValidTarget i ⟨index⟩))

/-- Refuses the first instruction from an index on whose target does not lie ahead. -/
def checkTargets (length : Nat) : (index : Nat) → List Instruction → Except Error Unit
  | _, [] => .ok ()
  | index, i :: code => do
    checkTarget length index i
    checkTargets length (index + 1) code

end Encoding

/-- Encodes a sequence; `returnsValue` says whether its method returns a value. -/
def encode (s : Sequence) (returnsValue : Bool) : Except Error EncodedBody := do
  Encoding.checkTargets s.length 0 s.instructions
  let forms := Layout.forms s.instructions
  let offsets := Layout.offsets forms
  let depth ← Stack.maxDepth returnsValue s
  let code ← Encoding.bytesFrom offsets 0 s.instructions forms
  return ⟨code, UInt16.ofNat depth, offsets⟩

/-! ## Headers -/

namespace EncodedBody

/-- The longest code that a tiny header can say. -/
def tinyCodeLimit : Nat := 63

/-- The greatest depth of the stack that a tiny header implies. -/
def tinyStackLimit : Nat := 8

/-- The longest code that a fat header can say. -/
def fatCodeLimit : Nat := 0xFFFFFFFF

/-- Whether a tiny header says all there is to say. -/
def fitsTiny (b : EncodedBody) (initLocals : Bool) : Bool :=
  b.code.length ≤ tinyCodeLimit && b.maxStack.toNat ≤ tinyStackLimit && !initLocals

/-- The first word of a fat header: the attributes, and in the upper four bits the size of the
header, counted in words of four bytes. -/
def fatFlags (initLocals : Bool) : Nat :=
  3 * 0x1000 + (BodyFlags.fatFormat ||| if initLocals then BodyFlags.initLocals else 0)

/-- The header of a body. -/
def header (b : EncodedBody) (initLocals : Bool) : Except Error (List UInt8) :=
  if b.fitsTiny initLocals then
    .ok [UInt8.ofNat (4 * b.code.length + BodyFlags.tinyFormat)]
  else if b.code.length ≤ fatCodeLimit then
    .ok (Words.encode 2 (fatFlags initLocals) ++ Words.encode 2 b.maxStack.toNat ++
      Words.encode 4 b.code.length ++ Words.encode 4 0)
  else .error (.malformed .bodyTooLarge)

/-- The header of a body and its code behind it, as methods are stored. -/
def methodBytes (b : EncodedBody) (initLocals : Bool) : Except Error (List UInt8) := do
  return (← b.header initLocals) ++ b.code

end EncodedBody
end DualInit
