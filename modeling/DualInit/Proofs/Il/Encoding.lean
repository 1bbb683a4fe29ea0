import DualInit.Il.Encoding
import DualInit.Proofs.Il.Finished
import DualInit.Proofs.Il.Sizing

/-!
# The bytes of a sequence

The bytes of a regular sequence exist as long as its code is not too long, neither in the forms that
are chosen nor with all branches long, for that is what the choice starts from (`exists_bytes`).  So
encoding comes down to the check of the stack (`encode_of_regular`).
-/

namespace DualInit

variable {code : List Instruction} {forms rest : List OpCode} {offsets : List UInt32}
  {index start : Nat} {i : Instruction} {form : OpCode} {s : Sequence} {returnsValue : Bool} {body : EncodedBody}

/-! ## Operands and their kinds -/

/-- Which operand stands behind an operation is a matter of the kind that it takes. -/
theorem OpCode.operandKind_cases (op : OpCode) :
    (op.operandKind = .none ∧ op.operand = .none) ∨
    (op.operandKind = .uint8 ∧ op.operand = .uint8) ∨
    (op.operandKind = .token ∧ op.operand = .token) ∨
    (op.operandKind = .callSite ∧ op.operand = .token) ∨
    (op.operandKind = .branchTarget ∧ (op.operand = .int8 ∨ op.operand = .int32)) := by
  cases op <;> decide

@[simp] theorem OpCode.operandKind_longForm (op : OpCode) :
    op.longForm.operandKind = op.operandKind := by
  cases op <;> rfl

/-- A form that an instruction may be written in. -/
def Instruction.Takes (i : Instruction) (form : OpCode) : Prop :=
  i.WellFormed ∧ form.longForm = i.opcode.longForm

theorem Instruction.Takes.operandKind (h : i.Takes form) : i.operand.kind = form.operandKind := by
  rw [h.1, ← OpCode.operandKind_longForm, ← h.2, OpCode.operandKind_longForm]

/-- A regular sequence can be written in any forms of its operations. -/
theorem Sequence.Regular.takes (hs : s.Regular)
    (hassign : Layout.IsAssignment s.instructions forms) :
    List.Forall₂ Instruction.Takes s.instructions forms := by
  rw [List.forall₂_iff_get]
  refine ⟨hassign.length_eq.symm, fun index hi hform => ?_⟩
  rw [List.get_eq_getElem, List.get_eq_getElem]
  have hget := List.getElem?_eq_getElem hi
  obtain ⟨form, hget', hlong⟩ := hassign.exists_form hget
  rw [List.getElem?_eq_getElem hform] at hget'
  rw [Option.some.inj hget']
  exact ⟨hs.wellFormed index _ hget, hlong⟩

namespace Encoding

/-! ## Targets -/

theorem checkTarget_ok {length : Nat} :
    checkTarget length index i = .ok () ↔
      ∀ target, i.target? = some target → index < target.index ∧ target.index < length := by
  unfold checkTarget
  cases i.target? with
  | none => exact ⟨fun _ _ h => (nomatch h), fun _ => rfl⟩
  | some target =>
    by_cases hahead : index < target.index ∧ target.index < length
    · simp only [if_pos hahead, true_iff]
      intro target' htarget
      cases htarget
      exact hahead
    · simp only [if_neg hahead, reduceCtorEq, false_iff]
      exact fun h => hahead (h target rfl)

theorem checkTargets_ok {length : Nat} :
    checkTargets length start code = .ok () ↔
      ∀ (index : Nat) (i : Instruction) (target : Position), code[index]? = some i →
        i.target? = some target → start + index < target.index ∧ target.index < length := by
  induction code generalizing start with
  | nil => exact ⟨fun _ index i target hi => absurd hi (by simp), fun _ => rfl⟩
  | cons first code ih =>
    rw [checkTargets, except_bind_ok]
    constructor
    · rintro ⟨_, hfirst, hrest⟩ index i target hi htarget
      cases index with
      | zero =>
        cases hi
        exact checkTarget_ok.mp hfirst target htarget
      | succ index =>
        have h := ih.mp hrest index i target hi htarget
        exact ⟨by omega, h.2⟩
    · intro h
      refine ⟨(), checkTarget_ok.mpr fun target htarget => h 0 first target rfl htarget,
        ih.mpr fun index i target hi htarget => ?_⟩
      obtain ⟨hahead, hinside⟩ := h (index + 1) i target hi htarget
      exact ⟨by omega, hinside⟩

/-- The targets of a sequence pass the check exactly if they lie ahead and inside. -/
theorem checkTargets_ok_iff_isForward :
    checkTargets s.length 0 s.instructions = .ok () ↔ s.IsForward := by
  rw [checkTargets_ok]
  simp only [Nat.zero_add]
  exact Iff.rfl

/-! ## Bytes -/

theorem bytesFrom_cons_ok {bytes : List UInt8} :
    bytesFrom offsets index (i :: code) (form :: rest) = .ok bytes ↔
      ∃ operand, operandBytes offsets index form i.operand = .ok operand ∧
        ∃ others, bytesFrom offsets (index + 1) code rest = .ok others ∧
          form.byte :: (operand ++ others) = bytes := by
  rw [bytesFrom, except_bind_ok]
  constructor
  · rintro ⟨operand, hoperand, h⟩
    obtain ⟨others, hothers, h⟩ := except_bind_ok.mp h
    exact ⟨operand, hoperand, others, hothers, Except.ok.inj h⟩
  · rintro ⟨operand, hoperand, others, hothers, rfl⟩
    exact ⟨operand, hoperand, except_bind_ok.mpr ⟨others, hothers, rfl⟩⟩

/-- The bytes of an operand exist where a displacement fits the form of its branch. -/
theorem exists_operandBytes {operand : Operand}
    (hfits : ∀ target, operand = .target target →
      Words.fits (if form.operand = .int8 then 1 else 4)
        (Layout.displacement offsets index target.index form) = true) :
    ∃ bytes, operandBytes offsets index form operand = .ok bytes := by
  cases operand with
  | none => exact ⟨_, rfl⟩
  | uint8 value => exact ⟨_, rfl⟩
  | token token => exact ⟨_, rfl⟩
  | call site => exact ⟨_, rfl⟩
  | target target => exact ⟨_, if_pos (hfits target rfl)⟩

theorem exists_bytesFrom (h : List.Forall₂ Instruction.Takes code rest)
    (hbytes : ∀ (k : Nat) (i : Instruction) (form : OpCode), code[k]? = some i →
      rest[k]? = some form → ∃ bytes, operandBytes offsets (start + k) form i.operand = .ok bytes) :
    ∃ bytes, bytesFrom offsets start code rest = .ok bytes := by
  induction h generalizing start with
  | nil => exact ⟨[], rfl⟩
  | @cons first form code rest _ _ ih =>
    obtain ⟨operand, hoperand⟩ := hbytes 0 first form rfl rfl
    have hothers : ∃ others, bytesFrom offsets (start + 1) code rest = .ok others := by
      refine ih fun k i form hi hform => ?_
      have h := hbytes (k + 1) i form hi hform
      rwa [show start + (k + 1) = start + 1 + k by omega] at h
    obtain ⟨others, hothers⟩ := hothers
    exact ⟨_, bytesFrom_cons_ok.mpr ⟨operand, hoperand, others, hothers, rfl⟩⟩

end Encoding

namespace Sequence.Regular

/-- The branches of a regular sequence go forward. -/
theorem branchesForward (hs : s.Regular) : Layout.BranchesForward s.instructions := by
  intro index hindex hbranch
  have hi := List.getElem?_eq_getElem hindex
  obtain ⟨target, htarget⟩ := (hs.wellFormed index _ hi).exists_target hbranch
  exact ⟨target, htarget, hs.forward index _ target hi htarget⟩

/-- The bytes of a regular sequence exist if no offset wraps around while the forms are chosen, and
its code is not too long for a branch across it in the end. -/
theorem exists_bytes (hs : s.Regular)
    (hlong : Layout.codeSize (Layout.longForms s.instructions) < 2 ^ 32)
    (hsize : Layout.codeSize (Layout.forms s.instructions) < 2 ^ 31) :
    ∃ code, Encoding.bytesFrom (Layout.offsets (Layout.forms s.instructions)) 0 s.instructions
      (Layout.forms s.instructions) = .ok code := by
  have hassign := Layout.isAssignment_forms s.instructions
  obtain ⟨hfits, -⟩ := Layout.isTight_forms hs.branchesForward hlong
  refine Encoding.exists_bytesFrom (hs.takes hassign) fun index i form hi hform => ?_
  rw [Nat.zero_add]
  refine Encoding.exists_operandBytes fun target hoperand => ?_
  have htarget := Instruction.target?_eq_some.mpr hoperand
  obtain ⟨hahead, hinside⟩ := hs.forward index i target hi htarget
  rw [Layout.displacement_eq (Nat.lt_of_le_of_lt hassign.codeSize_le hlong) hform hahead
    (hassign.length_eq ▸ hinside), Words.fits_ofNat]
  split
  · next hshort =>
    have hreach : _ ≤ 0x7F := hfits index i target hi htarget ⟨form, hform, hshort⟩
    rw [Words.limit, Words.limit]
    omega
  · have hreach := Layout.distance_le_codeSize (Layout.forms s.instructions) index target.index
    simp only [Words.limit]
    omega

end Sequence.Regular

/-! ## Encoding -/

/-- A sequence that is encoded goes forward, keeps to the stack and has bytes. -/
theorem encode_ok :
    encode s returnsValue = .ok body ↔ s.IsForward ∧
      ∃ depth, Stack.maxDepth returnsValue s = .ok depth ∧
        Encoding.bytesFrom (Layout.offsets (Layout.forms s.instructions)) 0 s.instructions
          (Layout.forms s.instructions) = .ok body.code ∧
        body.maxStack = UInt16.ofNat depth ∧
        body.starts = Layout.offsets (Layout.forms s.instructions) := by
  rw [encode, except_bind_ok]
  constructor
  · rintro ⟨_, htargets, h⟩
    obtain ⟨depth, hdepth, h⟩ := except_bind_ok.mp h
    obtain ⟨bytes, hbytes, h⟩ := except_bind_ok.mp h
    cases h
    exact ⟨Encoding.checkTargets_ok_iff_isForward.mp htargets, depth, hdepth, hbytes, rfl, rfl⟩
  · rintro ⟨hforward, depth, hdepth, hbytes, hstack, hoffsets⟩
    obtain ⟨bytes, maxStack, offsets⟩ := body
    obtain rfl := hstack
    obtain rfl := hoffsets
    refine ⟨(), Encoding.checkTargets_ok_iff_isForward.mpr hforward, ?_⟩
    exact except_bind_ok.mpr ⟨depth, hdepth, except_bind_ok.mpr ⟨bytes, hbytes, rfl⟩⟩

/-- For a regular sequence whose code is not too long, encoding is a matter of the stack. -/
theorem encode_of_regular (hs : s.Regular)
    (hlong : Layout.codeSize (Layout.longForms s.instructions) < 2 ^ 32)
    (hsize : Layout.codeSize (Layout.forms s.instructions) < 2 ^ 31) (returnsValue : Bool) :
    ∃ code, encode s returnsValue = (Stack.maxDepth returnsValue s).map fun depth =>
      ⟨code, UInt16.ofNat depth, Layout.offsets (Layout.forms s.instructions)⟩ := by
  obtain ⟨code, hcode⟩ := hs.exists_bytes hlong hsize
  refine ⟨code, ?_⟩
  unfold encode
  rw [Encoding.checkTargets_ok_iff_isForward.mpr hs.forward]
  cases hdepth : Stack.maxDepth returnsValue s with
  | error e => rfl
  | ok depth =>
    change (Encoding.bytesFrom _ 0 _ _ >>= _) = _
    rw [hcode]
    rfl

end DualInit
