import DualInit.Il.Encoding

/-!
# Encoding with checked look-ups

`encode` takes offsets out of a list by index, and takes an offset of zero where the index is beyond
the end of the list.  The encoder of this file answers `none` there.  It differs from `encode` in
nothing else, and shares with it everything that does not look anything up by index: the check of
the targets, the pass over the stack, and the order of the steps.
-/

namespace DualInit
namespace Indexed

/-- The displacement of the branch at an index: from the byte behind the branch to the offset of
its target. -/
def displacement? (offsets : List UInt32) (index target : Nat) (form : OpCode) : Option Int := do
  let start ← offsets[index]?
  let goal ← offsets[target]?
  return (goal.toNat : Int) - (start.toNat + form.size : Nat)

/-! ## Choosing forms -/

/-- The form of the instruction at an index after a round that measures in the layout `forms`. -/
def shrink? (forms : List OpCode) (index : Nat) (i : Instruction) : Option OpCode := do
  let form ← forms[index]?
  match i.target?, form.shortForm? with
  | some target, some short =>
    let displacement ← displacement? (Layout.offsets forms) index target.index form
    return if Words.fits 1 displacement then short else form
  | _, _ => return form

/-- A round from an index on. -/
def roundFrom? (forms : List OpCode) : (index : Nat) → List Instruction → Option (List OpCode)
  | _, [] => some []
  | index, i :: code => do
    return (← shrink? forms index i) :: (← roundFrom? forms (index + 1) code)

/-- Rounds until one changes nothing, at most as many as allowed. -/
def settle? (code : List Instruction) : (rounds : Nat) → List OpCode → Option (List OpCode)
  | 0, forms => some forms
  | rounds + 1, forms => do
    let next ← roundFrom? forms 0 code
    if next = forms then return forms else settle? code rounds next

/-- The final form of every instruction. -/
def forms? (code : List Instruction) : Option (List OpCode) :=
  settle? code code.length (Layout.longForms code)

/-! ## Writing bytes -/

/-- The bytes of an operand, or why there are none. -/
def operandBytes? (offsets : List UInt32) (index : Nat) (form : OpCode) :
    Operand → Option (Except Error (List UInt8))
  | .target target => do
    let displacement ← displacement? offsets index target.index form
    let width := if form.operand = .int8 then 1 else 4
    return if Words.fits width displacement then .ok (Words.encodeSigned width displacement)
      else .error (.invalidBranch (.tooFar displacement form))
  | operand => some (Encoding.operandBytes offsets index form operand)

/-- The bytes of the instructions from an index on, or why there are none. -/
def bytesFrom? (offsets : List UInt32) :
    (index : Nat) → List Instruction → List OpCode → Option (Except Error (List UInt8))
  | index, i :: code, form :: rest => do
    let operand ← operandBytes? offsets index form i.operand
    let bytes ← bytesFrom? offsets (index + 1) code rest
    return do
      let operand ← operand
      let bytes ← bytes
      return form.byte :: (operand ++ bytes)
  | _, _, _ => some (.ok [])

/-- Encodes a sequence; `none` says that an index was out of range. -/
def encode? (s : Sequence) (returnsValue : Bool) : Option (Except Error EncodedBody) :=
  match Encoding.checkTargets s.length 0 s.instructions with
  | .error e => some (.error e)
  | .ok () => do
    let forms ← forms? s.instructions
    let offsets := Layout.offsets forms
    let code ← bytesFrom? offsets 0 s.instructions forms
    return do
      let depth ← Stack.maxDepth returnsValue s
      return ⟨← code, UInt16.ofNat depth, offsets⟩

end Indexed
end DualInit
