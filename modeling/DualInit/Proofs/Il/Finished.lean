import DualInit.Il.Command
import DualInit.Proofs.Endings
import Mathlib.Data.List.Induction

/-!
# What finished sequences are

Whatever requests a builder has served, the sequence that it finishes is regular
(`Sequence.IsFinished.regular`): every operand is of the kind that its operation takes, every
target lies behind its branch and inside the sequence, and the last instruction is a return.

A request that succeeds emits, hands out a label or binds one (`Command.grows_of_perform`), so
what these three keep holds after every history (`Builder.after_induct`).  They keep a builder
sound (`Builder.sound_after`), and the labels of a sound builder resolve to a regular sequence.
-/

namespace DualInit

variable {b next : Builder} {opcode : OpCode} {operand : Operand} {slot : Slot} {label : Label}
  {target p : Position}

/-! ## What requests do -/

/-- What an operation may have in the place of its operand while a sequence is built: a label if
it is a branch, and otherwise an operand of its kind. -/
def Slot.Suits (opcode : OpCode) : Slot → Prop
  | .ready operand => opcode.isBranch = false ∧ operand.kind = opcode.operandKind
  | .pending _ => opcode.isBranch = true

namespace Build

/-- An operand that passes the check is of the kind that the operation takes. -/
theorem kind_of_fits (hbranch : opcode.isBranch = false) (hcall : opcode.isCall = false)
    (h : fits opcode.operand operand = true) : operand.kind = opcode.operandKind := by
  unfold OpCode.operandKind
  rw [hbranch, hcall]
  cases htype : opcode.operand <;> cases operand <;> rw [htype] at h <;>
    first | rfl | exact absurd h Bool.false_ne_true

theorem emitWith_ok (h : emitWith opcode operand b = .ok p next) :
    next = b.push opcode (.ready operand) ∧ Slot.Suits opcode (.ready operand) := by
  unfold emitWith at h
  cases hbranch : opcode.isBranch with
  | true => rw [hbranch] at h; cases h
  | false =>
    cases hcall : opcode.isCall with
    | true => rw [hbranch, hcall] at h; cases h
    | false =>
      rw [hbranch, hcall] at h
      cases hfits : fits opcode.operand operand with
      | true =>
        rw [hfits] at h
        cases h
        exact ⟨rfl, hbranch, kind_of_fits hbranch hcall hfits⟩
      | false =>
        rw [hfits] at h
        by_cases hnone : opcode.operand = .none
        · simp only [Bool.false_eq_true, if_false, if_pos hnone] at h
          cases h
        · simp only [Bool.false_eq_true, if_false, if_neg hnone] at h
          cases h

theorem emitCall_ok {site : CallSite} (h : emitCall opcode site b = .ok p next) :
    next = b.push opcode (.ready (.call site)) ∧ Slot.Suits opcode (.ready (.call site)) := by
  unfold emitCall at h
  cases hcall : opcode.isCall with
  | true =>
    rw [hcall] at h
    cases h
    have hflow : opcode.flow = .call := eq_of_beq hcall
    have hbranch : opcode.isBranch = false := by rw [OpCode.isBranch, hflow]; rfl
    refine ⟨rfl, hbranch, ?_⟩
    rw [OpCode.operandKind, hbranch, hcall]
    rfl
  | false => rw [hcall] at h; cases h

theorem emitLdarg_ok {index : Nat} (h : emitLdarg index b = .ok p next) :
    next = b.push (argumentLoad index).1 (argumentLoad index).2 ∧
      (argumentLoad index).2.Suits (argumentLoad index).1 := by
  unfold emitLdarg at h
  split at h
  · exact emitWith_ok h
  · exact emitWith_ok h
  · exact emitWith_ok h
  · exact emitWith_ok h
  · next hzero hone htwo hthree =>
    have hload : argumentLoad index = (.ldargS, .ready (.uint8 (UInt8.ofNat index))) := by
      unfold argumentLoad
      split
      · exact absurd rfl hzero
      · exact absurd rfl hone
      · exact absurd rfl htwo
      · exact absurd rfl hthree
      · rfl
    rw [hload]
    split at h
    · exact emitWith_ok h
    · cases h

theorem checkLabel_ok {u : Unit} (h : checkLabel label b = .ok u next) :
    next = b ∧ label.number < b.labels := by
  unfold checkLabel at h
  split at h
  · rename_i hlabel
    cases h
    exact ⟨rfl, hlabel⟩
  · cases h

/-- Two requests in a row succeed exactly if the first one does and the second one does on the
builder that it leaves. -/
theorem bind_ok {α β : Type} {first : Build α} {second : α → Build β} {answer : β} :
    (first >>= second) b = .ok answer next ↔
      ∃ a between, first b = .ok a between ∧ second a between = .ok answer next := by
  change EStateM.bind first second b = .ok answer next ↔ _
  unfold EStateM.bind
  cases first b with
  | ok a between => simp
  | error e between => simp

theorem branch_ok (h : branch opcode label b = .ok p next) :
    next = b.push opcode (.pending label) ∧ Slot.Suits opcode (.pending label) ∧
      label.number < b.labels := by
  unfold branch at h
  cases hbranch : opcode.isBranch with
  | true =>
    rw [hbranch, if_pos rfl] at h
    obtain ⟨_, between, hcheck, happend⟩ := bind_ok.mp h
    obtain ⟨rfl, hlabel⟩ := checkLabel_ok hcheck
    cases happend
    exact ⟨rfl, hbranch, hlabel⟩
  | false => rw [hbranch] at h; cases h

theorem bindLabel_ok {u : Unit} (h : Build.bind label target b = .ok u next) :
    next = { b with bindings := (label, target) :: b.bindings } ∧
      target.index < b.emitted.size ∧ b.bindings.lookup label = none ∧
      label.number < b.labels := by
  unfold Build.bind at h
  obtain ⟨_, between, hcheck, hrest⟩ := bind_ok.mp h
  obtain ⟨rfl, hlabel⟩ := checkLabel_ok hcheck
  obtain ⟨_, _, hget, hrest⟩ := bind_ok.mp hrest
  cases hget
  split at hrest
  · cases hrest
  · split at hrest
    · cases hrest
    · rename_i hsize hfresh
      cases hrest
      exact ⟨rfl, Nat.not_le.mp hsize, Option.not_isSome_iff_eq_none.mp hfresh, hlabel⟩

/-! ### Requests that fail -/

/-- Where a request fails, it leaves the builder as it was. -/
def Keeps {α : Type} (build : Build α) : Prop :=
  ∀ b e next, build b = .error e next → next = b

section Keeping

variable {α β : Type} {build : Build α} {e : Error}

theorem keeps_throw : Keeps (throw e : Build α) := by
  intro b e' next h
  cases h
  rfl

theorem keeps_append : Keeps (append opcode slot) := by
  intro b e next h
  cases h

/-- A request whose second part cannot fail after its first part has changed something keeps the
builder: the parts before the last one are checks. -/
theorem Keeps.bind {f : α → Build β} (hbuild : Keeps build)
    (hcheck : ∀ b a next, build b = .ok a next → next = b) (hf : ∀ a, Keeps (f a)) :
    Keeps (build >>= f) := by
  intro b e next h
  change EStateM.bind build f b = .error e next at h
  unfold EStateM.bind at h
  cases hfirst : build b with
  | ok a between =>
    rw [hfirst] at h
    cases hcheck b a between hfirst
    exact hf a b e next h
  | error e' between =>
    rw [hfirst] at h
    cases h
    exact hbuild b e next hfirst

theorem Keeps.map (hbuild : Keeps build) (f : α → β) : Keeps (f <$> build) := by
  intro b e next h
  change EStateM.map f build b = .error e next at h
  unfold EStateM.map at h
  cases hbuilt : build b with
  | ok a between => rw [hbuilt] at h; cases h
  | error e' between =>
    rw [hbuilt] at h
    cases h
    exact hbuild b e next hbuilt

theorem keeps_emitWith : Keeps (emitWith opcode operand) := by
  unfold emitWith
  split
  · exact keeps_throw
  split
  · exact keeps_throw
  split
  · exact keeps_append
  split
  · exact keeps_throw
  · exact keeps_throw

theorem keeps_emitCall {site : CallSite} : Keeps (emitCall opcode site) := by
  unfold emitCall
  split
  · exact keeps_append
  · exact keeps_throw

theorem keeps_emitLdarg {index : Nat} : Keeps (emitLdarg index) := by
  unfold emitLdarg
  split
  · exact keeps_emitWith
  · exact keeps_emitWith
  · exact keeps_emitWith
  · exact keeps_emitWith
  · split
    · exact keeps_emitWith
    · exact keeps_throw

theorem keeps_newLabel : Keeps newLabel := by
  intro b e next h
  cases h

theorem keeps_checkLabel : Keeps (checkLabel label) := by
  intro b e next h
  unfold checkLabel at h
  split at h <;> cases h
  rfl

theorem keeps_branch : Keeps (branch opcode label) := by
  unfold branch
  split
  · exact keeps_checkLabel.bind (fun _ _ _ h => (checkLabel_ok h).1) fun _ => keeps_append
  · exact keeps_throw

theorem keeps_bindLabel : Keeps (Build.bind label target) := by
  have hget : Keeps (get : Build Builder) := fun _ _ _ h => nomatch h
  refine keeps_checkLabel.bind (fun _ _ _ h => (checkLabel_ok h).1) fun _ =>
    hget.bind (fun _ _ _ h => by cases h; rfl) fun b => ?_
  split
  · exact keeps_throw
  split
  · exact keeps_throw
  · exact fun _ _ _ h => nomatch h

end Keeping

end Build

/-- What a request that succeeds makes of a builder. -/
inductive Builder.Grows (b : Builder) : Command → Builder → Prop where
  /-- It emits an operation with what suits it. -/
  | emits {c : Command} (opcode : OpCode) (slot : Slot) (hc : c.emission? = some (opcode, slot))
      (h : slot.Suits opcode) : Grows b c (b.push opcode slot)
  /-- It hands out a label. -/
  | hands : Grows b .newLabel { b with labels := b.labels + 1 }
  /-- It binds a label to an instruction that has been emitted. -/
  | binds (label : Label) (target : Position) (h : target.index < b.emitted.size)
      (hfresh : b.bindings.lookup label = none) :
      Grows b (.bind label target) { b with bindings := (label, target) :: b.bindings }

namespace Command

theorem perform_ok {α : Type} {build : Build α} {f : α → Answer} {answer : Answer}
    (h : (f <$> build) b = .ok answer next) : ∃ a, build b = .ok a next := by
  rw [map_eq_pure_bind] at h
  obtain ⟨a, _, hbuild, hpure⟩ := Build.bind_ok.mp h
  cases hpure
  exact ⟨a, hbuild⟩

/-- A request that succeeds emits, hands out a label or binds one. -/
theorem grows_of_perform {c : Command} {answer : Answer}
    (h : c.perform b = .ok answer next) : b.Grows c next := by
  cases c with
  | emit opcode =>
    obtain ⟨_, hemit⟩ := perform_ok h
    obtain ⟨rfl, hsuits⟩ := Build.emitWith_ok hemit
    exact .emits _ _ rfl hsuits
  | emitWith opcode operand =>
    obtain ⟨_, hemit⟩ := perform_ok h
    obtain ⟨rfl, hsuits⟩ := Build.emitWith_ok hemit
    exact .emits _ _ rfl hsuits
  | emitCall opcode site =>
    obtain ⟨_, hemit⟩ := perform_ok h
    obtain ⟨rfl, hsuits⟩ := Build.emitCall_ok hemit
    exact .emits _ _ rfl hsuits
  | emitInstanceCall opcode method =>
    obtain ⟨_, hemit⟩ := perform_ok h
    obtain ⟨rfl, hsuits⟩ := Build.emitCall_ok hemit
    exact .emits _ _ rfl hsuits
  | emitLdarg index =>
    obtain ⟨_, hemit⟩ := perform_ok h
    obtain ⟨rfl, hsuits⟩ := Build.emitLdarg_ok hemit
    exact .emits _ _ rfl hsuits
  | newLabel =>
    obtain ⟨_, hlabel⟩ := perform_ok h
    cases hlabel
    exact .hands
  | branch opcode label =>
    obtain ⟨_, hbranch⟩ := perform_ok h
    obtain ⟨rfl, hsuits, -⟩ := Build.branch_ok hbranch
    exact .emits _ _ rfl hsuits
  | bind label target =>
    obtain ⟨_, hbind⟩ := perform_ok h
    obtain ⟨rfl, htarget, hfresh, -⟩ := Build.bindLabel_ok hbind
    exact .binds label target htarget hfresh

theorem keeps_perform (c : Command) : Build.Keeps c.perform := by
  cases c with
  | emit opcode => exact Build.keeps_emitWith.map _
  | emitWith opcode operand => exact Build.keeps_emitWith.map _
  | emitCall opcode site => exact Build.keeps_emitCall.map _
  | emitInstanceCall opcode method => exact Build.keeps_emitCall.map _
  | emitLdarg index => exact Build.keeps_emitLdarg.map _
  | newLabel => exact Build.keeps_newLabel.map _
  | branch opcode label => exact Build.keeps_branch.map _
  | bind label target => exact Build.keeps_bindLabel.map _

/-- A request leaves the builder as it was and fails, or makes it grow. -/
theorem step_cases (c : Command) (b : Builder) :
    (∃ e, c.step b = (.error e, b)) ∨
      ∃ answer next, c.step b = (.ok answer, next) ∧ b.Grows c next := by
  unfold step
  cases h : c.perform b with
  | ok answer next => exact Or.inr ⟨answer, next, rfl, grows_of_perform h⟩
  | error e next =>
    cases c.keeps_perform b e next h
    exact Or.inl ⟨e, rfl⟩

end Command

namespace Builder

/-- What holds of the empty builder and is kept whenever a builder grows holds after every
history. -/
theorem after_induct {P : Builder → Prop} (hempty : P .empty)
    (hgrows : ∀ b c next, P b → b.Grows c next → P next) (history : List Command) :
    P (after history) := by
  induction history using List.reverseRecOn with
  | nil => exact hempty
  | append_singleton history c ih =>
    rw [after_concat]
    rcases c.step_cases (after history) with ⟨_, hstep⟩ | ⟨_, _, hstep, hnext⟩
    · rw [hstep]
      exact ih
    · rw [hstep]
      exact hgrows _ _ _ ih hnext

/-! ## What histories keep -/

/-- What stands with the operations suits them, and labels are bound to operations that have been
emitted. -/
structure Sound (b : Builder) : Prop where
  /-- Every operation has what suits it. -/
  suits : ∀ opcode slot, (opcode, slot) ∈ b.emitted.toList → slot.Suits opcode
  /-- Every binding is to an operation. -/
  bound : ∀ label target, b.bindings.lookup label = some target → target.index < b.emitted.size

theorem Sound.grows {c : Command} (hb : b.Sound) (h : b.Grows c next) : next.Sound := by
  cases h with
  | emits opcode slot _ hslot =>
    constructor
    · intro opcode' slot' hmem
      rw [toList_push, List.mem_append, List.mem_singleton] at hmem
      rcases hmem with hmem | hmem
      · exact hb.suits opcode' slot' hmem
      · cases hmem
        exact hslot
    · intro label target hlabel
      have hsize : (b.push opcode slot).emitted.size = b.emitted.size + 1 := Array.size_push _
      rw [hsize]
      exact Nat.lt_succ_of_lt (hb.bound label target hlabel)
  | hands => exact ⟨hb.suits, hb.bound⟩
  | binds label target htarget _ =>
    refine ⟨hb.suits, fun label' target' hlabel => ?_⟩
    rw [List.lookup_cons] at hlabel
    split at hlabel
    · cases hlabel
      exact htarget
    · exact hb.bound label' target' hlabel

theorem sound_after (history : List Command) : (after history).Sound :=
  after_induct ⟨fun _ _ h => absurd h List.not_mem_nil, fun _ _ h => by cases h⟩
    (fun _ _ _ hb h => hb.grows h) history

/-! ## Resolving -/

theorem resolve_ok {bindings : List (Label × Position)} {index : Nat} {i : Instruction}
    (h : resolve bindings index opcode slot = .ok i) :
    i.opcode = opcode ∧
      (slot = .ready i.operand ∨ ∃ label target, slot = .pending label ∧
        bindings.lookup label = some target ∧ index < target.index ∧
        i.operand = .target target) := by
  cases slot with
  | ready operand =>
    cases h
    exact ⟨rfl, Or.inl rfl⟩
  | pending label =>
    simp only [resolve] at h
    cases hlookup : bindings.lookup label with
    | none => rw [hlookup] at h; cases h
    | some target =>
      simp only [hlookup] at h
      by_cases hle : target.index ≤ index
      · rw [if_pos hle] at h
        cases h
      · rw [if_neg hle] at h
        cases h
        exact ⟨rfl, Or.inr ⟨label, target, rfl, hlookup, Nat.not_le.mp hle, rfl⟩⟩

/-- Operations are resolved one by one. -/
theorem resolveFrom_ok {bindings : List (Label × Position)} {start : Nat}
    {slots : List (OpCode × Slot)} {instructions : List Instruction}
    (h : resolveFrom bindings start slots = .ok instructions) :
    instructions.length = slots.length ∧
      ∀ (index : Nat) (i : Instruction), instructions[index]? = some i →
        ∃ opcode slot, slots[index]? = some (opcode, slot) ∧
          resolve bindings (start + index) opcode slot = .ok i := by
  induction slots generalizing start instructions with
  | nil =>
    cases h
    exact ⟨rfl, fun index i hi => absurd hi (by simp)⟩
  | cons first slots ih =>
    obtain ⟨opcode, slot⟩ := first
    rw [resolveFrom, except_bind_ok] at h
    obtain ⟨i, hi, h⟩ := h
    obtain ⟨rest, hrest, h⟩ := except_bind_ok.mp h
    cases h
    obtain ⟨hlength, hall⟩ := ih hrest
    refine ⟨congrArg Nat.succ hlength, fun index i' hi' => ?_⟩
    cases index with
    | zero =>
      cases hi'
      exact ⟨opcode, slot, rfl, hi⟩
    | succ index =>
      obtain ⟨opcode', slot', hslot, hresolve⟩ := hall index i' hi'
      rw [Nat.add_assoc, Nat.add_comm 1] at hresolve
      exact ⟨opcode', slot', hslot, hresolve⟩

theorem finish_ok {s : Sequence} (h : b.finish = .ok s) :
    (∃ opcode slot, b.emitted.back? = some (opcode, slot) ∧ opcode.isTerminal = true) ∧
      resolveFrom b.bindings 0 b.emitted.toList = .ok s.instructions := by
  unfold finish at h
  cases hback : b.emitted.back? with
  | none => rw [hback] at h; cases h
  | some last =>
    obtain ⟨opcode, slot⟩ := last
    simp only [hback] at h
    by_cases hterminal : opcode.isTerminal = true
    · rw [if_pos hterminal] at h
      obtain ⟨instructions, hresolve, hs⟩ := except_bind_ok.mp h
      cases hs
      exact ⟨⟨opcode, slot, rfl, hterminal⟩, hresolve⟩
    · rw [if_neg hterminal] at h
      cases h

end Builder

/-! ## Regular sequences -/

theorem OpCode.isBranch_of_operandKind (h : opcode.operandKind = .branchTarget) :
    opcode.isBranch = true := by
  revert h
  cases opcode <;> decide

theorem OpCode.operandKind_of_isBranch (h : opcode.isBranch = true) :
    opcode.operandKind = .branchTarget := by
  rw [OpCode.operandKind, h, if_pos rfl]

namespace Instruction

variable {i : Instruction}

theorem target?_eq_some : i.target? = some target ↔ i.operand = .target target := by
  unfold target?
  cases i.operand <;> simp

/-- A branch has a target. -/
theorem WellFormed.exists_target (h : i.WellFormed) (hbranch : i.opcode.isBranch = true) :
    ∃ target, i.target? = some target := by
  rw [WellFormed, OpCode.operandKind_of_isBranch hbranch] at h
  cases hoperand : i.operand with
  | target target => exact ⟨target, target?_eq_some.mpr hoperand⟩
  | _ => rw [hoperand] at h; cases h

/-- Only a branch has a target. -/
theorem WellFormed.isBranch_of_target (h : i.WellFormed) (htarget : i.target? = some target) :
    i.opcode.isBranch = true := by
  rw [WellFormed, target?_eq_some.mp htarget] at h
  exact OpCode.isBranch_of_operandKind h.symm

end Instruction

/-- What is never followed by the next instruction is a branch or a return. -/
theorem OpCode.isBranch_of_isTerminal {op : OpCode} (h : op.isTerminal = true) (hret : op ≠ .ret) :
    op.isBranch = true := by
  revert h hret
  cases op <;> decide

namespace Sequence

variable {s : Sequence}

/-- What the encoder relies on. -/
structure Regular (s : Sequence) : Prop where
  /-- Every operand is of the kind that its operation takes. -/
  wellFormed : ∀ (index : Nat) (i : Instruction), s.instructions[index]? = some i → i.WellFormed
  /-- Every target lies behind its branch and inside the sequence. -/
  forward : s.IsForward
  /-- The last instruction is a return. -/
  ends : ∃ i, s.instructions.getLast? = some i ∧ i.opcode = .ret

/-- Nothing but a return can stand at the end where targets lie ahead. -/
theorem ends_of_isTerminal {i : Instruction}
    (hwell : ∀ (index : Nat) (i : Instruction), s.instructions[index]? = some i → i.WellFormed)
    (hforward : s.IsForward) (hlast : s.instructions.getLast? = some i)
    (hterminal : i.opcode.isTerminal = true) : i.opcode = .ret := by
  have hi : s.instructions[s.instructions.length - 1]? = some i := by
    rw [← List.getLast?_eq_getElem?, hlast]
  by_contra hret
  have hbranch := OpCode.isBranch_of_isTerminal hterminal hret
  obtain ⟨target, htarget⟩ := (hwell _ i hi).exists_target hbranch
  obtain ⟨hahead, hinside⟩ := hforward _ i target hi htarget
  unfold length at hinside
  omega

theorem regular_emptyBody : emptyBody.Regular := by
  refine ⟨fun index i hi => ?_, isForward_emptyBody, _, rfl, rfl⟩
  rcases index with _ | index
  · cases hi
    rfl
  · cases hi

end Sequence

/-- A sound builder finishes regular sequences. -/
theorem Builder.Sound.regular {s : Sequence} (hb : b.Sound) (h : b.finish = .ok s) :
    s.Regular := by
  obtain ⟨⟨opcode, slot, hback, hterminal⟩, hresolve⟩ := finish_ok h
  obtain ⟨hlength, hall⟩ := resolveFrom_ok hresolve
  have hwell : ∀ (index : Nat) (i : Instruction), s.instructions[index]? = some i →
      i.WellFormed := by
    intro index i hi
    obtain ⟨opcode, slot, hslot, hresolve⟩ := hall index i hi
    have hsuits : slot.Suits opcode := hb.suits opcode slot (List.mem_of_getElem? hslot)
    obtain ⟨rfl, rfl | ⟨label, target, rfl, -, -, hoperand⟩⟩ := resolve_ok hresolve
    · exact hsuits.2
    · rw [Instruction.WellFormed, hoperand, OpCode.operandKind_of_isBranch hsuits]
      rfl
  have hforward : s.IsForward := by
    intro index i target hi htarget
    obtain ⟨opcode, slot, hslot, hresolve⟩ := hall index i hi
    have hsuits : slot.Suits opcode := hb.suits opcode slot (List.mem_of_getElem? hslot)
    obtain ⟨rfl, rfl | ⟨label, target', rfl, hlookup, hahead, hoperand⟩⟩ := resolve_ok hresolve
    · have hbranch : i.opcode.isBranch = true := (hwell index i hi).isBranch_of_target htarget
      rw [hsuits.1] at hbranch
      cases hbranch
    · rw [Instruction.target?_eq_some, hoperand] at htarget
      cases htarget
      rw [Nat.zero_add] at hahead
      refine ⟨hahead, ?_⟩
      rw [Sequence.length, hlength, Array.length_toList]
      exact hb.bound label target hlookup
  refine ⟨hwell, hforward, ?_⟩
  have hlast : b.emitted.toList[s.instructions.length - 1]? = some (opcode, slot) := by
    rw [hlength, ← List.getLast?_eq_getElem?, Array.getLast?_toList, hback]
  have hinstruction : s.instructions.length - 1 < s.instructions.length := by
    have hinside := (List.getElem?_eq_some_iff.mp hlast).1
    omega
  have hi := List.getElem?_eq_getElem hinstruction
  obtain ⟨opcode', slot', hslot, hresolve⟩ := hall _ _ hi
  rw [hlast] at hslot
  cases hslot
  have hgetLast : s.instructions.getLast? = some s.instructions[s.instructions.length - 1] := by
    rw [List.getLast?_eq_getElem?, hi]
  refine ⟨_, hgetLast, Sequence.ends_of_isTerminal hwell hforward hgetLast ?_⟩
  rw [(resolve_ok hresolve).1]
  exact hterminal

/-- Finished sequences are regular, whatever the history of the builder. -/
theorem Sequence.IsFinished.regular {s : Sequence} (h : s.IsFinished) : s.Regular := by
  rcases h with ⟨history, hfinish⟩ | rfl
  · exact (Builder.sound_after history).regular hfinish
  · exact regular_emptyBody

end DualInit
