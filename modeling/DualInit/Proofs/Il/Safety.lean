import DualInit.Il.Indexed
import DualInit.Proofs.Il.Discipline

/-!
# Finished sequences are safe

A builder checks what it is given bit by bit: an operand when it is emitted, a target when a label
is bound, the end when the sequence is finished.  `finished_safe` says what this comes to for those
who rely on it.  Whoever executes a finished sequence is led from instruction to instruction and
comes to a return, for a path only goes forward and the only instruction that it cannot go on from
is a return (`Regular.returnsWithin`, `Walk.inside`).  Whoever encodes it never looks behind the
end of the sequence or of a layout: the encoder with checked look-ups answers, and answers the same
(`encode?_eq`), and apart from a fault of the stack nothing is refused (`encode_ok_or_malformed`).

The look-ups succeed because every layout that the search for forms passes through has a form, and so
an offset, for each instruction, and targets lie ahead (`displacement?_eq`).  For this it makes no
difference how long the code is.
-/

namespace DualInit

variable {s : Sequence} {code : List Instruction} {all rest : List OpCode}
  {offsets : List UInt32} {index start next : Nat} {i : Instruction} {form : OpCode}

/-! ## Executing -/

namespace Sequence

theorem ReturnsWithin.mono {allowed more : Nat} (h : s.ReturnsWithin allowed index)
    (hle : allowed ≤ more) : s.ReturnsWithin more index := by
  induction h generalizing more with
  | returns hi hret =>
    obtain ⟨more, rfl⟩ := Nat.exists_eq_add_one_of_ne_zero (Nat.ne_zero_of_lt hle)
    exact .returns hi hret
  | goes hmoves _ ih =>
    obtain ⟨more, rfl⟩ := Nat.exists_eq_add_one_of_ne_zero (Nat.ne_zero_of_lt hle)
    exact .goes hmoves fun next hl => ih next hl (Nat.le_of_succ_le_succ hle)

/-- From every instruction but a return a path goes on. -/
theorem Regular.exists_leads (hs : s.Regular) (hi : s.instructions[index]? = some i)
    (hret : i.opcode ≠ .ret) : ∃ next, s.Leads index next := by
  cases hterminal : i.opcode.isTerminal with
  | false => exact ⟨_, .next hi hterminal⟩
  | true =>
    have hbranch := OpCode.isBranch_of_isTerminal hterminal hret
    obtain ⟨target, htarget⟩ := (hs.wellFormed index i hi).exists_target hbranch
    exact ⟨_, .jump hi htarget⟩

/-- All paths from an instruction come to a return before they have executed more instructions than
there are from it on. -/
theorem Regular.returnsWithin (hs : s.Regular) (hindex : index < s.length) :
    s.ReturnsWithin (s.length - index) index := by
  -- what is left of the sequence gets shorter with every step, since paths go forward
  induction hleft : s.length - index using Nat.strong_induction_on generalizing index with
  | _ left ih =>
    subst hleft
    obtain ⟨i, hi⟩ : ∃ i, s.instructions[index]? = some i := ⟨_, List.getElem?_eq_getElem hindex⟩
    obtain ⟨left, hleft⟩ : ∃ left, s.length - index = left + 1 :=
      Nat.exists_eq_add_one_of_ne_zero (Nat.sub_ne_zero_of_lt hindex)
    rw [hleft]
    by_cases hret : i.opcode = .ret
    · exact .returns hi hret
    · refine .goes (hs.exists_leads hi hret) fun next hl => ?_
      have hlt := hl.lt hs
      have hinside := hl.lt_length hs
      exact (ih _ (by omega) hinside rfl).mono (by omega)

/-- A path never leaves a sequence that it starts in, and passes each instruction at most once. -/
theorem Walk.inside {path : List Nat} (hs : s.Regular) (h : s.Walk index path)
    (hindex : index < s.length) :
    path.length ≤ s.length - index ∧ ∀ passed ∈ path, passed < s.length := by
  induction h with
  | stay index =>
    refine ⟨Nat.sub_pos_of_lt hindex, fun passed hpassed => ?_⟩
    rwa [List.mem_singleton.mp hpassed]
  | @go index next rest hl _ ih =>
    have hlt := hl.lt hs
    obtain ⟨hlength, hinside⟩ := ih (hl.lt_length hs)
    refine ⟨?_, fun passed hpassed => ?_⟩
    · rw [List.length_cons]
      omega
    · rcases List.mem_cons.mp hpassed with rfl | hpassed
      · exact hindex
      · exact hinside passed hpassed

end Sequence

/-! ## Looking up by index -/

namespace Indexed

open Layout

/-- Where both indices are inside the list, both offsets are found. -/
theorem displacement?_eq {target : Nat} (hindex : index < offsets.length)
    (hinside : target < offsets.length) (form : OpCode) :
    displacement? offsets index target form = some (displacement offsets index target form) := by
  rw [displacement?, displacement, List.getD_eq_getElem?_getD, List.getD_eq_getElem?_getD,
    List.getElem?_eq_getElem hindex, List.getElem?_eq_getElem hinside]
  rfl

theorem shrink?_eq (hform : all[index]? = some form)
    (htargets : ∀ target, i.target? = some target →
      index < target.index ∧ target.index < all.length) :
    shrink? all index i = some (shrink (Layout.offsets all) index i form) := by
  rw [shrink?, hform, Option.bind_eq_bind, Option.bind_some, shrink]
  cases htarget : i.target? with
  | none => rfl
  | some target =>
    cases hshort : form.shortForm? with
    | none => rfl
    | some short =>
      obtain ⟨hahead, hinside⟩ := htargets target htarget
      rw [← length_offsets all] at hinside
      simp only [displacement?_eq (Nat.lt_trans hahead hinside) hinside, Option.bind_eq_bind,
        Option.bind_some, Option.pure_def]

/-- The targets of the instructions from an index on lie ahead and inside. -/
def TargetsAhead (length start : Nat) (code : List Instruction) : Prop :=
  ∀ (k : Nat) (i : Instruction) (target : Position), code[k]? = some i →
    i.target? = some target → start + k < target.index ∧ target.index < length

theorem TargetsAhead.tail {length : Nat} (h : TargetsAhead length start (i :: code)) :
    TargetsAhead length (start + 1) code := by
  intro k i' target hi htarget
  have hahead := h (k + 1) i' target hi htarget
  omega

theorem TargetsAhead.head {length : Nat} (h : TargetsAhead length start (i :: code)) :
    ∀ target, i.target? = some target → start < target.index ∧ target.index < length :=
  fun target => h 0 i target rfl

theorem roundFrom?_eq (hlength : rest.length = code.length) (hrest : all.drop start = rest)
    (htargets : TargetsAhead all.length start code) :
    roundFrom? all start code = some (roundFrom (Layout.offsets all) start code rest) := by
  induction code generalizing rest start with
  | nil => rw [List.length_eq_zero_iff.mp hlength]; rfl
  | cons i code ih =>
    obtain ⟨form, rest, rfl⟩ := List.exists_cons_of_length_eq_add_one hlength
    obtain ⟨hform, htail⟩ := head_and_tail_of_drop hrest
    rw [roundFrom?, shrink?_eq hform htargets.head, ih (Nat.succ.inj hlength) htail htargets.tail]
    rfl

/-- Every round finds what it looks up, as far as the search goes. -/
theorem settle?_eq {rounds : Nat} (hassign : IsAssignment code all)
    (htargets : TargetsAhead code.length 0 code) :
    settle? code rounds all = some (settle code rounds all) := by
  induction rounds generalizing all with
  | zero => rfl
  | succ rounds ih =>
    have hround : roundFrom? all 0 code = some (round code all) :=
      roundFrom?_eq hassign.length_eq List.drop_zero (hassign.length_eq ▸ htargets)
    rw [settle?, hround, Option.bind_eq_bind, Option.bind_some, settle]
    by_cases hsame : round code all = all
    · rw [if_pos hsame, if_pos hsame]
      rfl
    · rw [if_neg hsame, if_neg hsame]
      exact ih hassign.round

theorem operandBytes?_eq (hindex : index < offsets.length)
    (htargets : ∀ target, i.target? = some target →
      index < target.index ∧ target.index < offsets.length) :
    operandBytes? offsets index form i.operand =
      some (Encoding.operandBytes offsets index form i.operand) := by
  cases hoperand : i.operand with
  | none => rfl
  | uint8 value => rfl
  | token token => rfl
  | call site => rfl
  | target target =>
    obtain ⟨-, hinside⟩ := htargets target (Instruction.target?_eq_some.mpr hoperand)
    rw [operandBytes?, displacement?_eq hindex hinside]
    rfl

theorem bytesFrom?_eq (hlength : rest.length = code.length)
    (hinside : start + code.length ≤ offsets.length)
    (htargets : TargetsAhead offsets.length start code) :
    bytesFrom? offsets start code rest = some (Encoding.bytesFrom offsets start code rest) := by
  induction code generalizing rest start with
  | nil => rw [List.length_eq_zero_iff.mp hlength]; rfl
  | cons i code ih =>
    obtain ⟨form, rest, rfl⟩ := List.exists_cons_of_length_eq_add_one hlength
    rw [List.length_cons] at hinside
    rw [bytesFrom?, operandBytes?_eq (by omega) htargets.head,
      ih (Nat.succ.inj hlength) (by omega) htargets.tail]
    rfl

/-- The encoder with checked look-ups finds all that it looks up, and comes to the same. -/
theorem encode?_eq (hs : s.Regular) (returnsValue : Bool) :
    encode? s returnsValue = some (encode s returnsValue) := by
  have htargets : TargetsAhead s.instructions.length 0 s.instructions := by
    intro k i target hi htarget
    rw [Nat.zero_add]
    exact hs.forward k i target hi htarget
  have hlength := (isAssignment_forms s.instructions).length_eq
  have hforms : forms? s.instructions = some (forms s.instructions) :=
    settle?_eq (isAssignment_longForms s.instructions) htargets
  have hoffsets : (Layout.offsets (forms s.instructions)).length = s.instructions.length :=
    (length_offsets _).trans hlength
  have hbytes := bytesFrom?_eq hlength (by omega) (hoffsets ▸ htargets)
  rw [encode?, encode, Encoding.checkTargets_ok_iff_isForward.mpr hs.forward, hforms]
  simp only [Option.bind_eq_bind, Option.bind_some, hbytes]
  rfl

end Indexed

/-! ## What is refused -/

/-- A regular sequence whose code is not too long is encoded or refused for a fault of the stack. -/
theorem encode_ok_or_malformed (hs : s.Regular)
    (hlong : Layout.codeSize (Layout.longForms s.instructions) < 2 ^ 32)
    (hsize : Layout.codeSize (Layout.forms s.instructions) < 2 ^ 31) (returnsValue : Bool) :
    (∃ body, encode s returnsValue = .ok body) ∨
      ∃ fault, Stack.maxDepth returnsValue s = .error (.malformed fault) ∧
        encode s returnsValue = .error (.malformed fault) := by
  obtain ⟨code, hencode⟩ := encode_of_regular hs hlong hsize returnsValue
  cases hdepth : Stack.maxDepth returnsValue s with
  | ok depth =>
    rw [hdepth] at hencode
    exact Or.inl ⟨_, hencode⟩
  | error e =>
    obtain ⟨fault, rfl⟩ := Stack.malformed_of_maxDepth hdepth
    rw [hdepth] at hencode
    exact Or.inr ⟨fault, rfl, hencode⟩

/-! ## Finished sequences -/

/-- **Finished sequences are safe to execute and to encode**, whatever the history of the builder.
Every operand is of the kind that its operation takes, every target lies behind its branch and
inside the sequence, and the sequence ends in a return.  Whichever way conditional branches go, a
path from the first instruction comes to a return after no more steps than there are instructions,
and never leaves the sequence.  Encoding finds everything that it looks up by index, and for code
of less than two gigabytes it succeeds or tells the fault that the check of the stack has found.  The
layout that the choice of forms starts from, with long branches only, is one whose offsets four bytes
can say. -/
theorem finished_safe (s : Sequence) (hs : s.IsFinished) :
    (∀ i ∈ s.instructions, i.WellFormed) ∧
    (∀ (index : Nat) (i : Instruction), s.instructions[index]? = some i →
      i.opcode.isBranch = true → ∃ target, i.target? = some target ∧
        index < target.index ∧ target.index < s.length) ∧
    (∃ i, s.instructions.getLast? = some i ∧ i.opcode = .ret) ∧
    s.ReturnsWithin s.length 0 ∧
    (∀ path, s.Walk 0 path → path.length ≤ s.length ∧ ∀ index ∈ path, index < s.length) ∧
    ∀ returnsValue, Indexed.encode? s returnsValue = some (encode s returnsValue) ∧
      (Layout.codeSize (Layout.longForms s.instructions) < 2 ^ 32 →
        Layout.codeSize (Layout.forms s.instructions) < 2 ^ 31 →
        (∃ body, encode s returnsValue = .ok body) ∨
          ∃ fault, Stack.maxDepth returnsValue s = .error (.malformed fault) ∧
            encode s returnsValue = .error (.malformed fault)) := by
  have hregular := hs.regular
  have hstart : 0 < s.length := (.start : s.Reaches false 0 0).lt_length hregular
  refine ⟨fun i hi => ?_, fun index i hi hbranch => ?_, hregular.ends,
    hregular.returnsWithin hstart, fun path hpath => hpath.inside hregular hstart,
    fun returnsValue => ⟨Indexed.encode?_eq hregular returnsValue,
      fun hlong hsize => encode_ok_or_malformed hregular hlong hsize returnsValue⟩⟩
  · obtain ⟨index, hindex⟩ := List.getElem?_of_mem hi
    exact hregular.wellFormed index i hindex
  · obtain ⟨target, htarget⟩ := (hregular.wellFormed index i hi).exists_target hbranch
    exact ⟨target, htarget, hregular.forward index i target hi htarget⟩

/-- Goes past one of two instructions, whatever the condition. -/
def Sequence.twoWays : Sequence :=
  ⟨[⟨.ldarg1, .none⟩, ⟨.brfalse, .target ⟨3⟩⟩, ⟨.br, .target ⟨4⟩⟩, ⟨.nop, .none⟩, ⟨.ret, .none⟩]⟩

/-- Both ways return in time, and both displacements are found in the list of offsets. -/
theorem finished_safe_twoWays :
    Sequence.twoWays.IsFinished ∧ Sequence.twoWays.ReturnsWithin 5 0 ∧
      (∀ path, Sequence.twoWays.Walk 0 path → path.length ≤ 5 ∧ ∀ index ∈ path, index < 5) ∧
      Indexed.encode? .twoWays false =
        some (.ok ⟨[0x03, 0x2C, 0x02, 0x2B, 0x01, 0x00, 0x2A], 1, [0, 1, 3, 5, 6]⟩) := by
  have hfinished : Sequence.twoWays.IsFinished :=
    Or.inl ⟨[.newLabel, .newLabel, .emitLdarg 1, .branch .brfalse ⟨0⟩, .branch .br ⟨1⟩,
      .emit .nop, .emit .ret, .bind ⟨0⟩ ⟨3⟩, .bind ⟨1⟩ ⟨4⟩], rfl⟩
  have hencode : encode .twoWays false =
      .ok ⟨[0x03, 0x2C, 0x02, 0x2B, 0x01, 0x00, 0x2A], 1, [0, 1, 3, 5, 6]⟩ := rfl
  obtain ⟨-, -, -, hreturns, hwalks, hencodes⟩ := finished_safe .twoWays hfinished
  exact ⟨hfinished, hreturns, hwalks, hencode ▸ (hencodes false).1⟩

end DualInit
