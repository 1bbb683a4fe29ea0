import DualInit.Il.Sequence
import DualInit.Il.Words

/-!
# Layout of a sequence

A laid out sequence gives each instruction its final form, that is its operation with every
branch either short or long.  Offsets are sums of the sizes of forms.  They are words of four
bytes, so the sum wraps around once it does not fit; the displacement of a branch, by contrast, is
a number with a sign, and what it is measured with are the offsets as they are.

`Layout.forms` starts from long branches and shrinks in rounds.  A round measures all
displacements in the layout it starts from and shrinks every branch whose displacement fits a
signed byte.  A round that changes nothing ends the search, and there cannot be more rounds that
change something than there are branches, which is where the number of rounds comes from.

What is wanted of a layout is said in the second half of this file, with sizes and distances that
have no limit.
-/

namespace DualInit
namespace Layout

/-! ## Offsets -/

/-- The offsets of instructions that follow each other from a given offset on. -/
def offsetsFrom : (start : UInt32) → List OpCode → List UInt32
  | _, [] => []
  | start, form :: forms => start :: offsetsFrom (start + UInt32.ofNat form.size) forms

/-- The offset of every instruction. -/
def offsets (forms : List OpCode) : List UInt32 :=
  offsetsFrom 0 forms

/-- The displacement of a branch at `index`, in some form: from the byte behind the branch to the
offset of its target.  It is negative if offsets have wrapped around in between. -/
def displacement (offsets : List UInt32) (index target : Nat) (form : OpCode) : Int :=
  ((offsets.getD target 0).toNat : Int) - ((offsets.getD index 0).toNat + form.size : Nat)

/-! ## Choosing forms -/

/-- The form of an instruction after a round that measures with some offsets. -/
def shrink (offsets : List UInt32) (index : Nat) (i : Instruction) (form : OpCode) : OpCode :=
  match i.target?, form.shortForm? with
  | some target, some short =>
    if Words.fits 1 (displacement offsets index target.index form) then short else form
  | _, _ => form

/-- A round from index `index` on. -/
def roundFrom (offsets : List UInt32) :
    (index : Nat) → List Instruction → List OpCode → List OpCode
  | index, i :: code, form :: forms =>
    shrink offsets index i form :: roundFrom offsets (index + 1) code forms
  | _, _, _ => []

/-- Shrinks every branch that a signed byte can bridge in the layout the round starts from. -/
def round (code : List Instruction) (forms : List OpCode) : List OpCode :=
  roundFrom (offsets forms) 0 code forms

/-- Rounds until one changes nothing, at most as many as allowed. -/
def settle (code : List Instruction) : (rounds : Nat) → List OpCode → List OpCode
  | 0, forms => forms
  | rounds + 1, forms =>
    let next := round code forms
    if next = forms then forms else settle code rounds next

/-- The layout in which every branch is long. -/
def longForms (code : List Instruction) : List OpCode :=
  code.map (·.opcode.longForm)

/-- The final form of every instruction. -/
def forms (code : List Instruction) : List OpCode :=
  settle code code.length (longForms code)

/-! ## What forms can be

These say which layouts a sequence has at all and which one of them is wanted, without saying
how it is found. -/

/-- How many bytes instructions of these forms take. -/
def codeSize : List OpCode → Nat
  | [] => 0
  | form :: forms => form.size + codeSize forms

/-- The size of what stands in front of the instruction at an index. -/
def offset (forms : List OpCode) (index : Nat) : Nat :=
  codeSize (forms.take index)

/-- The size of what stands between the instruction at `index` and the one at `target`. -/
def distance (forms : List OpCode) (index target : Nat) : Nat :=
  codeSize ((forms.take target).drop (index + 1))

/-- The longest distance that a signed byte holds. -/
def shortReach : Nat := 0x7F

/-- Every instruction has a form of its own operation: branches the short or the long one, all
others their only one. -/
def IsAssignment (code : List Instruction) (forms : List OpCode) : Prop :=
  forms.map OpCode.longForm = longForms code

/-- The instruction at an index is a short branch. -/
def IsShort (forms : List OpCode) (index : Nat) : Prop :=
  ∃ form, forms[index]? = some form ∧ form.operand = .int8

/-- Every short branch reaches its target. -/
def Fits (code : List Instruction) (forms : List OpCode) : Prop :=
  ∀ (index : Nat) (i : Instruction) (target : Position), code[index]? = some i →
    i.target? = some target → IsShort forms index →
      distance forms index target.index ≤ shortReach

/-- Exactly those branches are short that reach their targets. -/
def IsTight (code : List Instruction) (forms : List OpCode) : Prop :=
  ∀ (index : Nat) (i : Instruction) (target : Position), code[index]? = some i →
    i.opcode.isBranch = true → i.target? = some target →
      (IsShort forms index ↔ distance forms index target.index ≤ shortReach)

/-- Rounds until one changes nothing, as many as it takes. -/
inductive Settles (code : List Instruction) : List OpCode → List OpCode → Prop where
  | done {forms : List OpCode} (h : round code forms = forms) : Settles code forms forms
  | again {forms settled : List OpCode} (h : round code forms ≠ forms)
      (hrest : Settles code (round code forms) settled) : Settles code forms settled

end Layout
end DualInit
