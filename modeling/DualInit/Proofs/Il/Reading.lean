import DualInit.Il.Decoding
import DualInit.Proofs.Il.Encoding
import DualInit.Proofs.Il.Machine

/-!
# Encoded code is read back

Code that `encode` makes is read back, byte by byte, as the sequence it was made of
(`readAll_encode`): each instruction stands at its offset, and a branch leads to the offset of its
target.  So code tells the sequence, up to the forms of branches and the effects of callees, which
it does not hold.

What will be read is said first: `Decoded.expected` lists the instructions of a layout with their
displacements, as they were measured, and with the places where they are read.  One instruction is
read where its bytes stand in front of others (`readOne_append`), and then all of them by induction
(`readFrom_bytesFrom`).  Up to here it makes no difference how long the code is.  That the places are
the offsets of the layout, and that displacements lead to them, is so as long as offsets do not wrap
around (`represents_expected`).
-/

namespace DualInit

variable {code : List Instruction} {forms rest : List OpCode} {offsets : List UInt32}
  {index start offset : Nat} {i i' : Instruction} {form : OpCode} {s s' : Sequence} {returnsValue : Bool}
  {body : EncodedBody} {bytes : List UInt8}

/-- An operand without what code does not hold: the effect of a callee. -/
def Operand.bare : Operand → Operand
  | .call site => .call ⟨site.method, 0, 0⟩
  | operand => operand

/-- An instruction without what code does not hold: the form of a branch and the effect of a
callee. -/
def Instruction.bare (i : Instruction) : Instruction :=
  ⟨i.opcode.longForm, i.operand.bare⟩

namespace Decoded

/-! ## Operands -/

/-- What the bytes of an operand are read as; a displacement is measured with some offsets. -/
def rawOperand (offsets : List UInt32) (index : Nat) (form : OpCode) : Operand → RawOperand
  | .none => .none
  | .uint8 value => .uint8 value
  | .token token => .token token
  | .call site => .token site.method
  | .target target => .displacement (Layout.displacement offsets index target.index form)

/-- A signed word is read as the number that was written. -/
theorem signed_decode_encodeSigned {width : Nat} {n : Int} (h : Words.fits width n = true) :
    signed width (Words.decode (Words.encodeSigned width n)) = n := by
  rw [Words.fits_iff] at h
  rw [Words.encodeSigned, signed, Words.decode_encode_mod]
  generalize Words.limit width = limit at h ⊢
  rcases Int.lt_or_le n 0 with hneg | hpos
  · have hmod : n % limit = n + limit := by
      rw [← Int.add_emod_right, Int.emod_eq_of_lt (by omega) (by omega)]
    rw [hmod, Nat.mod_eq_of_lt (by omega), if_neg (by omega)]
    omega
  · rw [Int.emod_eq_of_lt hpos (by omega), Nat.mod_eq_of_lt (by omega), if_pos (by omega)]
    omega

/-- The bytes of an operand are as many as the form says, and they are read as the operand. -/
theorem operandBytes_ok (htakes : i.Takes form)
    (h : Encoding.operandBytes offsets index form i.operand = .ok bytes) :
    bytes.length = form.operand.size ∧
      operandOf form.operand bytes = rawOperand offsets index form i.operand := by
  have hkind : i.operand.kind = form.operandKind := htakes.operandKind
  rcases form.operandKind_cases with ⟨hform, htype⟩ | ⟨hform, htype⟩ | ⟨hform, htype⟩ |
    ⟨hform, htype⟩ | ⟨hform, htype⟩
  · cases hoperand : i.operand <;> rw [hoperand, hform] at hkind <;> cases hkind
    rw [hoperand] at h
    cases h
    rw [htype]
    exact ⟨rfl, rfl⟩
  · cases hoperand : i.operand <;> rw [hoperand, hform] at hkind <;> cases hkind
    rename_i value
    rw [hoperand] at h
    cases h
    rw [htype]
    refine ⟨rfl, ?_⟩
    rw [operandOf, Words.decode, Words.decode, Nat.mul_zero, Nat.add_zero, UInt8.ofNat_toNat]
    rfl
  · cases hoperand : i.operand <;> rw [hoperand, hform] at hkind <;> cases hkind
    rw [hoperand] at h
    cases h
    rw [htype]
    exact ⟨Words.length_encode 4 _, operandOf_token _⟩
  · cases hoperand : i.operand <;> rw [hoperand, hform] at hkind <;> cases hkind
    rw [hoperand] at h
    cases h
    rw [htype]
    exact ⟨Words.length_encode 4 _, operandOf_token _⟩
  · cases hoperand : i.operand <;> rw [hoperand, hform] at hkind <;> cases hkind
    rename_i target
    rw [hoperand] at h
    rcases htype with htype | htype
    · simp only [Encoding.operandBytes, if_pos htype] at h
      split at h
      · rename_i hfits
        cases h
        rw [htype]
        exact ⟨Words.length_encode 1 _, congrArg RawOperand.displacement
          (signed_decode_encodeSigned hfits)⟩
      · cases h
    · have hlong : form.operand ≠ .int8 := by rw [htype]; decide
      simp only [Encoding.operandBytes, if_neg hlong] at h
      split at h
      · rename_i hfits
        cases h
        rw [htype]
        exact ⟨Words.length_encode 4 _, congrArg RawOperand.displacement
          (signed_decode_encodeSigned hfits)⟩
      · cases h

/-! ## Reading a layout -/

/-- The instructions of a layout as they will be read, from an index and an offset on. -/
def expected (offsets : List UInt32) :
    (index offset : Nat) → List Instruction → List OpCode → List Decoded
  | index, offset, i :: code, form :: forms =>
    ⟨offset, form, rawOperand offsets index form i.operand⟩ ::
      expected offsets (index + 1) (offset + form.size) code forms
  | _, _, _, _ => []

theorem length_expected (h : code.length = forms.length) :
    (expected offsets index offset code forms).length = code.length := by
  induction code generalizing index offset forms with
  | nil => rfl
  | cons i code ih =>
    cases forms with
    | nil => cases h
    | cons form forms => exact congrArg Nat.succ (ih (Nat.succ.inj h))

theorem map_opcode_expected (h : code.length = forms.length) :
    (expected offsets index offset code forms).map opcode = forms := by
  induction code generalizing index offset forms with
  | nil => exact (List.length_eq_zero_iff.mp h.symm).symm
  | cons i code ih =>
    cases forms with
    | nil => cases h
    | cons form forms => exact congrArg (form :: ·) (ih (Nat.succ.inj h))

theorem getElem?_expected {k : Nat} (hi : code[k]? = some i) (hform : forms[k]? = some form) :
    (expected offsets index offset code forms)[k]? =
      some ⟨offset + Layout.offset forms k, form,
        rawOperand offsets (index + k) form i.operand⟩ := by
  induction code generalizing index offset forms k with
  | nil => cases hi
  | cons first code ih =>
    cases forms with
    | nil => cases hform
    | cons form' forms =>
      cases k with
      | zero =>
        cases hi
        cases hform
        rfl
      | succ k =>
        rw [expected, List.getElem?_cons_succ, ih hi hform, Layout.offset, Layout.offset,
          List.take_succ_cons, Layout.codeSize_cons, Nat.add_assoc offset, Nat.add_assoc index,
          Nat.add_comm 1]

/-- An instruction is read where its bytes stand in front of others. -/
theorem readOne_append {operand others : List UInt8} (h : operand.length = form.operand.size) :
    readOne offset (form.byte :: (operand ++ others)) =
      some ⟨offset, form, operandOf form.operand operand⟩ := by
  have hlong : ¬ (operand ++ others).length < form.operand.size := by
    rw [List.length_append]
    omega
  have htake : (operand ++ others).take form.operand.size = operand := by
    rw [← h, List.take_left]
  simp only [readOne, OpCode.ofByte?_byte, Option.bind_eq_bind, Option.bind_some, if_neg hlong,
    htake, Option.pure_def]

/-- The bytes of a layout are read as it says, and nothing is left. -/
theorem readFrom_bytesFrom {count : Nat} (htakes : List.Forall₂ Instruction.Takes code rest)
    (h : Encoding.bytesFrom offsets index code rest = .ok bytes) (hcount : bytes.length ≤ count) :
    readFrom count offset bytes = some (expected offsets index offset code rest) := by
  induction htakes generalizing index offset bytes count with
  | nil =>
    cases h
    cases count <;> rfl
  | cons hfirst _ ih =>
    obtain ⟨operand, hoperand, others, hothers, rfl⟩ := Encoding.bytesFrom_cons_ok.mp h
    obtain ⟨hlength, hread⟩ := operandBytes_ok hfirst hoperand
    cases count with
    | zero => cases hcount
    | succ count =>
      have hcount' : others.length ≤ count := by
        rw [List.length_cons, List.length_append] at hcount
        omega
      have hdrop : (operand ++ others).drop operand.length = others := List.drop_left
      rw [readFrom, readOne_append hlength, Option.bind_eq_bind, Option.bind_some, ← hlength,
        hdrop, ih hothers hcount', hread]
      rfl

/-- The bytes of a layout are as many as its forms say. -/
theorem length_bytesFrom (htakes : List.Forall₂ Instruction.Takes code rest)
    (h : Encoding.bytesFrom offsets index code rest = .ok bytes) :
    bytes.length = Layout.codeSize rest := by
  induction htakes generalizing index bytes with
  | nil =>
    cases h
    rfl
  | cons hfirst _ ih =>
    obtain ⟨operand, hoperand, others, hothers, rfl⟩ := Encoding.bytesFrom_cons_ok.mp h
    rw [List.length_cons, List.length_append, (operandBytes_ok hfirst hoperand).1, ih hothers,
      Layout.codeSize_cons, OpCode.size]
    omega

end Decoded

/-! ## Reading what was encoded -/

/-- The code of a sequence is read back as its layout. -/
theorem readAll_of_encode (hs : s.Regular) (h : encode s returnsValue = .ok body) :
    Decoded.readAll body.code =
      some (Decoded.expected (Layout.offsets (Layout.forms s.instructions)) 0 0 s.instructions
        (Layout.forms s.instructions)) := by
  obtain ⟨-, _, -, hbytes, -, -⟩ := encode_ok.mp h
  have hassign := Layout.isAssignment_forms s.instructions
  exact Decoded.readFrom_bytesFrom (hs.takes hassign) hbytes (Nat.le_refl _)

theorem length_of_encode (hs : s.Regular) (h : encode s returnsValue = .ok body) :
    body.code.length = Layout.codeSize (Layout.forms s.instructions) := by
  obtain ⟨-, _, -, hbytes, -, -⟩ := encode_ok.mp h
  exact Decoded.length_bytesFrom (hs.takes (Layout.isAssignment_forms s.instructions)) hbytes


/-- What is read in the place of an instruction represents it. -/
theorem represents_expected (hforward : s.IsForward)
    (hassign : Layout.IsAssignment s.instructions forms) (hsize : Layout.codeSize forms < 2 ^ 32)
    (hi : s.instructions[index]? = some i) (hform : forms[index]? = some form) :
    Decoded.Represents ((Layout.offsets forms).map (·.toNat)) index i
      ⟨Layout.offset forms index, form,
        Decoded.rawOperand (Layout.offsets forms) index form i.operand⟩ := by
  obtain ⟨hindex, rfl⟩ := List.getElem?_eq_some_iff.mp hform
  obtain ⟨form, hform', hlong⟩ := hassign.exists_form hi
  obtain rfl : forms[index] = form := Option.some.inj (hform.symm.trans hform')
  refine ⟨Layout.getElem?_map_offsets hsize hindex, hlong, ?_⟩
  cases hoperand : i.operand with
  | none => rfl
  | uint8 value => rfl
  | token token => rfl
  | call site => rfl
  | target target =>
    obtain ⟨hahead, hinside⟩ :=
      hforward index i target hi (Instruction.target?_eq_some.mpr hoperand)
    have htarget : target.index < forms.length := by
      rw [hassign.length_eq]
      exact hinside
    refine ⟨Layout.offset forms target.index, Layout.getElem?_map_offsets hsize htarget, ?_⟩
    rw [Decoded.rawOperand, Layout.displacement_eq hsize hform hahead htarget,
      ← Layout.offset_add_distance hform hahead]
    rfl

/-- Offsets grow from instruction to instruction. -/
theorem Layout.offset_lt {target : Nat} (hindex : index < forms.length) (h : index < target) :
    Layout.offset forms index < Layout.offset forms target := by
  have hsum := offset_add_distance (List.getElem?_eq_getElem hindex) h
  have hpos := OpCode.size_pos forms[index]
  omega

/-- Targets ahead of one branch are apart where their displacements are. -/
theorem Layout.target_eq_of_displacement {target target' : Nat} (hsize : codeSize forms < 2 ^ 32)
    (hform : forms[index]? = some form) (hahead : index < target)
    (hinside : target < forms.length) (hahead' : index < target') (hinside' : target' < forms.length)
    (h : displacement (Layout.offsets forms) index target form =
      displacement (Layout.offsets forms) index target' form) : target = target' := by
  rw [displacement_eq hsize hform hahead hinside, displacement_eq hsize hform hahead' hinside'] at h
  have hsum := offset_add_distance hform hahead
  have hsum' := offset_add_distance hform hahead'
  rcases Nat.lt_trichotomy target target' with hlt | heq | hlt
  · have := offset_lt hinside hlt
    omega
  · exact heq
  · have := offset_lt hinside' hlt
    omega

/-- Two operands of one kind that are read as the same one differ in nothing that code holds. -/
theorem Operand.bare_eq {operand operand' : Operand} (hkind : operand.kind = operand'.kind)
    (hraw : Decoded.rawOperand offsets index form operand =
      Decoded.rawOperand offsets index form operand')
    (htarget : ∀ target target', operand = .target target → operand' = .target target' →
      Layout.displacement offsets index target.index form =
        Layout.displacement offsets index target'.index form → target = target') :
    operand.bare = operand'.bare := by
  cases operand with
  | none => cases operand' with
    | none => rfl
    | _ => cases hkind
  | uint8 value => cases operand' with
    | uint8 value' => rw [RawOperand.uint8.inj hraw]
    | _ => cases hkind
  | token token => cases operand' with
    | token token' => rw [RawOperand.token.inj hraw]
    | _ => cases hkind
  | call site => cases operand' with
    | call site' => rw [bare, bare, RawOperand.token.inj hraw]
    | _ => cases hkind
  | target target => cases operand' with
    | target target' =>
      rw [htarget target target' rfl rfl (RawOperand.displacement.inj hraw)]
    | _ => cases hkind

/-- Two instructions that are read as the same one differ in nothing that code holds. -/
theorem Instruction.bare_eq (hsize : Layout.codeSize forms < 2 ^ 32)
    (hform : forms[index]? = some form) (h : i.Takes form)
    (h' : i'.Takes form)
    (hahead : ∀ target, i.target? = some target →
      index < target.index ∧ target.index < forms.length)
    (hahead' : ∀ target, i'.target? = some target →
      index < target.index ∧ target.index < forms.length)
    (hraw : Decoded.rawOperand (Layout.offsets forms) index form i.operand =
      Decoded.rawOperand (Layout.offsets forms) index form i'.operand) :
    i.bare = i'.bare := by
  have hopcode : i.opcode.longForm = i'.opcode.longForm := h.2.symm.trans h'.2
  have hoperand : i.operand.bare = i'.operand.bare := by
    refine Operand.bare_eq (h.operandKind.trans h'.operandKind.symm) hraw ?_
    intro target target' hi hi' hsame
    obtain ⟨htarget, hinside⟩ := hahead target (target?_eq_some.mpr hi)
    obtain ⟨htarget', hinside'⟩ := hahead' target' (target?_eq_some.mpr hi')
    exact congrArg Position.mk (Layout.target_eq_of_displacement hsize hform htarget hinside
      htarget' hinside' hsame)
  rw [bare, bare, hopcode, hoperand]

/-- Sequences that are read as the same instructions differ in nothing that code holds. -/
theorem Sequence.Regular.map_bare_eq (hs : s.Regular) (hs' : s'.Regular)
    (hsize : Layout.codeSize (Layout.forms s.instructions) < 2 ^ 32)
    (h : Decoded.expected (Layout.offsets (Layout.forms s'.instructions)) 0 0 s'.instructions
        (Layout.forms s'.instructions) =
      Decoded.expected (Layout.offsets (Layout.forms s.instructions)) 0 0 s.instructions
        (Layout.forms s.instructions)) :
    s'.instructions.map Instruction.bare = s.instructions.map Instruction.bare := by
  have hassign := Layout.isAssignment_forms s.instructions
  have hassign' := Layout.isAssignment_forms s'.instructions
  have hlength : s'.instructions.length = s.instructions.length := by
    have hlengths := congrArg List.length h
    rwa [Decoded.length_expected hassign.length_eq.symm,
      Decoded.length_expected hassign'.length_eq.symm] at hlengths
  have hforms : Layout.forms s'.instructions = Layout.forms s.instructions := by
    have hopcodes := congrArg (List.map Decoded.opcode) h
    rwa [Decoded.map_opcode_expected hassign.length_eq.symm,
      Decoded.map_opcode_expected hassign'.length_eq.symm] at hopcodes
  refine List.ext_getElem (by rw [List.length_map, List.length_map, hlength]) ?_
  intro index hindex' hindex
  rw [List.length_map] at hindex hindex'
  rw [List.getElem_map, List.getElem_map]
  have hi := List.getElem?_eq_getElem hindex
  have hi' := List.getElem?_eq_getElem hindex'
  obtain ⟨form, hform, hlong⟩ := hassign.exists_form hi
  have hform' : (Layout.forms s'.instructions)[index]? = some form := by rw [hforms, hform]
  obtain ⟨_, hsame, hlong'⟩ := hassign'.exists_form hi'
  obtain rfl := Option.some.inj (hform'.symm.trans hsame)
  have hread := congrArg (·[index]?) h
  simp only [Decoded.getElem?_expected hi hform, Decoded.getElem?_expected hi' hform',
    Option.some.injEq, Decoded.mk.injEq, Nat.zero_add, true_and] at hread
  rw [hforms] at hread
  refine Instruction.bare_eq hsize hform ⟨hs'.wellFormed index _ hi', hlong'⟩
    ⟨hs.wellFormed index _ hi, hlong⟩ ?_ ?_ hread.2
  · intro target htarget
    rw [hassign.length_eq, ← hlength]
    exact hs'.forward index _ target hi' htarget
  · intro target htarget
    rw [hassign.length_eq]
    exact hs.forward index _ target hi htarget

/-- Code that a finished sequence is encoded as is read, from its first byte to its last, as exactly
the instructions of the sequence: each of them stands at its offset, is of its operation up to the
form of a branch, and has its operand, where a branch leads to the offset of its target.  So
sequences that are encoded as the same code are equal up to the forms of branches and the effects
of callees.  The code has to be shorter than four gigabytes, for the offsets of longer code wrap
around. -/
theorem readAll_encode (s : Sequence) (returnsValue : Bool) (body : EncodedBody)
    (hs : s.IsFinished) (h : encode s returnsValue = .ok body)
    (hlength : body.code.length < 2 ^ 32) :
    (∃ read, Decoded.readAll body.code = some read ∧ read.length = s.length ∧
      ∀ (index : Nat) (i : Instruction), s.instructions[index]? = some i →
        ∃ d, read[index]? = some d ∧ d.Represents body.offsets index i) ∧
    ∀ (s' : Sequence) (returnsValue' : Bool) (body' : EncodedBody), s'.IsFinished →
      encode s' returnsValue' = .ok body' → body'.code = body.code →
        s'.instructions.map Instruction.bare = s.instructions.map Instruction.bare := by
  have hassign := Layout.isAssignment_forms s.instructions
  have hread := readAll_of_encode hs.regular h
  have hsize : Layout.codeSize (Layout.forms s.instructions) < 2 ^ 32 :=
    length_of_encode hs.regular h ▸ hlength
  obtain ⟨hforward, _, -, -, -, hoffsets⟩ := encode_ok.mp h
  constructor
  · refine ⟨_, hread, Decoded.length_expected hassign.length_eq.symm, fun index i hi => ?_⟩
    obtain ⟨form, hform, -⟩ := hassign.exists_form hi
    refine ⟨_, Decoded.getElem?_expected hi hform, ?_⟩
    rw [EncodedBody.offsets, hoffsets, Nat.zero_add, Nat.zero_add]
    exact represents_expected hforward hassign hsize hi hform
  · intro s' returnsValue' body' hs' h' hcode
    have hread' := readAll_of_encode hs'.regular h'
    rw [hcode, hread] at hread'
    exact hs.regular.map_bare_eq hs'.regular hsize (Option.some.inj hread').symm

/-- Calls a method on an object, unless a condition holds. -/
def Sequence.conditionalCall : Sequence :=
  ⟨[⟨.ldarg1, .none⟩, ⟨.brtrue, .target ⟨4⟩⟩, ⟨.ldarg0, .none⟩,
    ⟨.call, .call (.instanceVoid ⟨0x06000001⟩)⟩, ⟨.ret, .none⟩]⟩

/-- It comes from a builder, its branch is written in the short form, and its ten bytes are read
back. -/
theorem readAll_conditionalCall :
    Sequence.conditionalCall.IsFinished ∧
    encode .conditionalCall false =
      .ok ⟨[0x03, 0x2D, 0x06, 0x02, 0x28, 0x01, 0x00, 0x00, 0x06, 0x2A], 1, [0, 1, 3, 4, 9]⟩ ∧
    ∃ read, Decoded.readAll [0x03, 0x2D, 0x06, 0x02, 0x28, 0x01, 0x00, 0x00, 0x06, 0x2A] =
        some read ∧ read.length = 5 ∧
      ∀ (index : Nat) (i : Instruction), Sequence.conditionalCall.instructions[index]? = some i →
        ∃ d, read[index]? = some d ∧ d.Represents [0, 1, 3, 4, 9] index i := by
  have hfinished : Sequence.conditionalCall.IsFinished :=
    Or.inl ⟨[.newLabel, .emitLdarg 1, .branch .brtrue ⟨0⟩, .emitLdarg 0,
      .emitInstanceCall .call ⟨0x06000001⟩, .emit .ret, .bind ⟨0⟩ ⟨4⟩], rfl⟩
  have hencode : encode .conditionalCall false =
      .ok ⟨[0x03, 0x2D, 0x06, 0x02, 0x28, 0x01, 0x00, 0x00, 0x06, 0x2A], 1, [0, 1, 3, 4, 9]⟩ := rfl
  exact ⟨hfinished, hencode, (readAll_encode _ _ _ hfinished hencode (by decide)).1⟩

end DualInit
