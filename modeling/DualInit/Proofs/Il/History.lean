import DualInit.Proofs.Il.Finished
import Mathlib.Data.List.Forall2

/-!
# What histories come to

A builder keeps no more of its history than the requests that succeeded have emitted and bound
(`Builder.tells_after`).  So whether it finishes, and what, is read off these:

* `Builder.exists_resolveFrom_ok`, `Builder.resolveFrom_error`: operations resolve exactly if each
  of them does, and otherwise the first that does not decides the error;
* `Builder.finish_congr`: nothing but the operations and what their labels stand for is looked at;
* `Builder.finish_after`: which histories can be finished, which sequence they give, and which
  branch is to blame if they give none.

That the last instruction is a return, where `Builder.finish` only asks that execution does not run
past it, is due to `Builder.sound_after`: the label of a branch at the end could only be bound to an
operation that has been emitted, which does not lie behind the branch.
-/

namespace DualInit

variable {b next : Builder} {opcode : OpCode} {slot : Slot} {label : Label} {target : Position}
  {index start : Nat} {bindings : List (Label × Position)} {slots : List (OpCode × Slot)}
  {e : Error}

namespace Builder

/-! ## Requests that succeed -/

/-- The last request is among those that succeed exactly if it does on what the others have left. -/
theorem served_concat (b : Builder) (history : List Command) (c : Command) :
    b.served (history ++ [c]) = b.served history ++
      match (c.step (history.foldl (fun b c => (c.step b).2) b)).1 with
      | .ok _ => [c]
      | .error _ => [] := by
  induction history generalizing b with
  | nil =>
    simp only [List.nil_append, served, List.foldl_nil]
    rcases c.step b with ⟨answer | e, next⟩ <;> rfl
  | cons first history ih =>
    simp only [List.cons_append, served, List.foldl_cons]
    rcases hfirst : first.step b with ⟨e | answer, next⟩
    · exact ih next
    · simp only [ih next, List.cons_append]

/-- A builder holds what the requests that have succeeded emit and bind, and nothing else. -/
structure Tells (b : Builder) (granted : List Command) : Prop where
  /-- The operations are those that the requests emit. -/
  emitted : b.emitted.toList = granted.filterMap (·.emission?)
  /-- The labels are bound as the requests bind them. -/
  bound : ∀ label target, b.bindings.lookup label = some target ↔ .bind label target ∈ granted

theorem Tells.grows {granted : List Command} {c : Command} (hb : b.Tells granted)
    (h : b.Grows c next) : next.Tells (granted ++ [c]) := by
  cases h with
  | emits opcode slot hc _ =>
    constructor
    · rw [toList_push, hb.emitted, List.filterMap_append, List.filterMap_cons_some hc,
        List.filterMap_nil]
    · intro label target
      have hother : Command.bind label target ≠ c := by
        rintro rfl
        cases hc
      simp only [bindings_push, List.mem_append, List.mem_singleton, hother, or_false]
      exact hb.bound label target
  | hands =>
    constructor
    · rw [List.filterMap_append]
      exact hb.emitted.trans (List.append_nil _).symm
    · intro label target
      simp only [List.mem_append, List.mem_singleton, reduceCtorEq, or_false]
      exact hb.bound label target
  | binds label target _ hfresh =>
    constructor
    · rw [List.filterMap_append]
      exact hb.emitted.trans (List.append_nil _).symm
    · intro label' target'
      have hbound := hb.bound label' target'
      rw [List.mem_append, List.mem_singleton, List.lookup_cons]
      by_cases hlabel : label' = label
      · -- The label has not been bound before, so no earlier request bound it.
        subst hlabel
        rw [hfresh] at hbound
        simp only [beq_self_eq_true, Option.some.injEq, Command.bind.injEq, true_and]
        have hnever : ¬ Command.bind label' target' ∈ granted := fun hmem => nomatch hbound.mpr hmem
        exact ⟨fun h => Or.inr h.symm, fun h => (h.resolve_left hnever).symm⟩
      · have hother : Command.bind label' target' ≠ .bind label target := by
          intro heq
          cases heq
          exact hlabel rfl
        simp only [beq_eq_false_iff_ne.mpr hlabel, hother, or_false]
        exact hbound

/-- A builder holds what has succeeded in its history. -/
theorem tells_after (history : List Command) :
    (after history).Tells (Builder.empty.served history) := by
  induction history using List.reverseRecOn with
  | nil => exact ⟨rfl, fun _ _ => ⟨(fun h => nomatch h), (fun h => nomatch h)⟩⟩
  | append_singleton history c ih =>
    rw [after_concat, served_concat]
    change (c.step (after history)).2.Tells (Builder.empty.served history ++
      match (c.step (after history)).1 with
      | .ok _ => [c]
      | .error _ => [])
    rcases c.step_cases (after history) with ⟨e, hstep⟩ | ⟨answer, next, hstep, hnext⟩
    · rw [hstep]
      exact (List.append_nil (Builder.empty.served history)).symm ▸ ih
    · rw [hstep]
      exact ih.grows hnext

theorem toList_after (history : List Command) :
    (after history).emitted.toList = History.emissions history :=
  (tells_after history).emitted

theorem lookup_after {history : List Command} :
    (after history).bindings.lookup label = some target ↔ History.Binds history label target :=
  (tells_after history).bound label target

/-- A label is not bound exactly if no position is bound to it. -/
theorem lookup_after_eq_none {history : List Command} :
    (after history).bindings.lookup label = none ↔
      ∀ target, ¬ History.Binds history label target := by
  rw [Option.eq_none_iff_forall_ne_some]
  exact forall_congr' fun _ => not_congr lookup_after

/-! ## Resolving -/

/-- What resolves: an operand, and a label that is bound ahead. -/
theorem exists_resolve_ok :
    (∃ i, resolve bindings index opcode slot = .ok i) ↔
      ∀ label, slot = .pending label →
        ∃ target, bindings.lookup label = some target ∧ index < target.index := by
  cases slot with
  | ready operand => exact ⟨(fun _ _ h => nomatch h), fun _ => ⟨_, rfl⟩⟩
  | pending label =>
    constructor
    · rintro ⟨i, hi⟩ _ ⟨rfl⟩
      obtain ⟨_, hready | ⟨label, target, hslot, hlookup, hahead, _⟩⟩ := resolve_ok hi
      · cases hready
      · cases hslot
        exact ⟨target, hlookup, hahead⟩
    · intro h
      obtain ⟨target, hlookup, hahead⟩ := h label rfl
      refine ⟨⟨opcode, .target target⟩, ?_⟩
      simp only [resolve, hlookup, if_neg (Nat.not_le.mpr hahead)]

/-- Why an operation does not resolve. -/
theorem resolve_error (h : resolve bindings index opcode slot = .error e) :
    ∃ label, slot = .pending label ∧
      (bindings.lookup label = none ∧ e = .unboundLabel label ∨
        ∃ target, bindings.lookup label = some target ∧ target.index ≤ index ∧
          e = .invalidBranch (.notForward opcode ⟨index⟩ target)) := by
  cases slot with
  | ready operand => cases h
  | pending label =>
    refine ⟨label, rfl, ?_⟩
    simp only [resolve] at h
    cases hlookup : bindings.lookup label with
    | none =>
      rw [hlookup] at h
      cases h
      exact Or.inl ⟨rfl, rfl⟩
    | some target =>
      simp only [hlookup] at h
      by_cases hle : target.index ≤ index
      · rw [if_pos hle] at h
        cases h
        exact Or.inr ⟨target, rfl, hle, rfl⟩
      · rw [if_neg hle] at h
        cases h

/-- The first operation that does not resolve decides the error. -/
theorem resolveFrom_error (h : resolveFrom bindings start slots = .error e) :
    ∃ index opcode slot, slots[index]? = some (opcode, slot) ∧
      resolve bindings (start + index) opcode slot = .error e ∧
      ∀ earlier opcode' slot', earlier < index → slots[earlier]? = some (opcode', slot') →
        ∃ i, resolve bindings (start + earlier) opcode' slot' = .ok i := by
  induction slots generalizing start with
  | nil => cases h
  | cons first slots ih =>
    obtain ⟨opcode, slot⟩ := first
    rw [resolveFrom] at h
    cases hfirst : resolve bindings start opcode slot with
    | error e' =>
      rw [hfirst] at h
      cases h
      exact ⟨0, opcode, slot, rfl, hfirst, fun earlier _ _ hlt => absurd hlt (Nat.not_lt_zero _)⟩
    | ok i =>
      rw [hfirst] at h
      cases hrest : resolveFrom bindings (start + 1) slots with
      | ok instructions => rw [hrest] at h; cases h
      | error e' =>
        rw [hrest] at h
        cases h
        obtain ⟨index, opcode', slot', hslot, hresolve, hearlier⟩ := ih hrest
        refine ⟨index + 1, opcode', slot', hslot, ?_, ?_⟩
        · rw [Nat.add_comm index 1, ← Nat.add_assoc]
          exact hresolve
        · intro earlier opcode'' slot'' hlt hget
          cases earlier with
          | zero =>
            cases hget
            exact ⟨i, hfirst⟩
          | succ earlier =>
            rw [Nat.add_comm earlier 1, ← Nat.add_assoc]
            exact hearlier earlier opcode'' slot'' (Nat.lt_of_succ_lt_succ hlt) hget

/-- Operations resolve exactly if each of them does. -/
theorem exists_resolveFrom_ok :
    (∃ instructions, resolveFrom bindings start slots = .ok instructions) ↔
      ∀ index opcode slot, slots[index]? = some (opcode, slot) →
        ∃ i, resolve bindings (start + index) opcode slot = .ok i := by
  constructor
  · rintro ⟨instructions, h⟩ index opcode slot hslot
    obtain ⟨hlength, hall⟩ := resolveFrom_ok h
    have hindex : index < instructions.length :=
      hlength ▸ (List.getElem?_eq_some_iff.mp hslot).1
    obtain ⟨opcode', slot', hslot', hresolve⟩ :=
      hall index _ (List.getElem?_eq_getElem hindex)
    rw [hslot] at hslot'
    cases hslot'
    exact ⟨_, hresolve⟩
  · intro hall
    cases h : resolveFrom bindings start slots with
    | ok instructions => exact ⟨instructions, rfl⟩
    | error e =>
      obtain ⟨index, opcode, slot, hslot, hresolve, _⟩ := resolveFrom_error h
      obtain ⟨i, hi⟩ := hall index opcode slot hslot
      rw [hresolve] at hi
      cases hi

/-- Labels that stand for the same positions resolve alike. -/
theorem resolveFrom_congr {bindings' : List (Label × Position)}
    (h : ∀ label, bindings.lookup label = bindings'.lookup label) (start : Nat)
    (slots : List (OpCode × Slot)) :
    resolveFrom bindings start slots = resolveFrom bindings' start slots := by
  have hresolve (index : Nat) (opcode : OpCode) (slot : Slot) :
      resolve bindings index opcode slot = resolve bindings' index opcode slot := by
    cases slot with
    | ready operand => rfl
    | pending label => simp only [resolve, h]
  induction slots generalizing start with
  | nil => rfl
  | cons first slots ih =>
    obtain ⟨opcode, slot⟩ := first
    rw [resolveFrom, resolveFrom, hresolve, ih]

/-! ## Finishing -/

/-- Only the operations and what the labels stand for decide what is finished. -/
theorem finish_congr {b' : Builder} (hemitted : b.emitted = b'.emitted)
    (hlookup : ∀ label, b.bindings.lookup label = b'.bindings.lookup label) :
    b.finish = b'.finish := by
  rw [finish, finish, hemitted, resolveFrom_congr hlookup]

/-- A builder finishes exactly if its last operation cannot be run past and its operations
resolve. -/
theorem exists_finish_ok :
    (∃ s, b.finish = .ok s) ↔
      (∃ opcode slot, b.emitted.toList.getLast? = some (opcode, slot) ∧
        opcode.isTerminal = true) ∧
      ∃ instructions, resolveFrom b.bindings 0 b.emitted.toList = .ok instructions := by
  rw [Array.getLast?_toList]
  constructor
  · rintro ⟨s, h⟩
    obtain ⟨hlast, hresolve⟩ := finish_ok h
    exact ⟨hlast, s.instructions, hresolve⟩
  · rintro ⟨⟨opcode, slot, hback, hterminal⟩, instructions, hresolve⟩
    refine ⟨⟨instructions⟩, ?_⟩
    simp only [finish, hback, if_pos hterminal, hresolve]
    rfl

/-- If the last operation cannot be run past, then what is wrong is that the operations do not
resolve. -/
theorem resolveFrom_of_finish_error {last : OpCode} (h : b.finish = .error e)
    (hlast : b.emitted.toList.getLast? = some (last, slot)) (hterminal : last.isTerminal = true) :
    resolveFrom b.bindings 0 b.emitted.toList = .error e := by
  rw [Array.getLast?_toList] at hlast
  simp only [finish, hlast, if_pos hterminal] at h
  cases hresolve : resolveFrom b.bindings 0 b.emitted.toList with
  | ok instructions => rw [hresolve] at h; cases h
  | error e' =>
    rw [hresolve] at h
    cases h
    rfl

/-- The last operation of a builder that finishes is a return. -/
theorem Sound.getLast?_eq_ret {s : Sequence} (hb : b.Sound) (h : b.finish = .ok s) :
    ∃ slot, b.emitted.toList.getLast? = some (.ret, slot) := by
  obtain ⟨hlength, hall⟩ := resolveFrom_ok (finish_ok h).2
  obtain ⟨i, hlast, hret⟩ := (hb.regular h).ends
  rw [List.getLast?_eq_getElem?] at hlast ⊢
  obtain ⟨opcode, slot, hslot, hresolve⟩ := hall _ i hlast
  rw [hlength] at hslot
  rw [← (resolve_ok hresolve).1, hret] at hslot
  exact ⟨slot, hslot⟩

/-! ## Histories -/

variable {history : List Command}

/-- An operation at a position resolves exactly if it is no branch, or one whose label the history
has bound ahead. -/
theorem exists_resolve_after :
    (∃ i, resolve (after history).bindings index opcode slot = .ok i) ↔
      ∀ label, slot = .pending label → History.LeadsAhead history index label := by
  rw [exists_resolve_ok]
  refine forall_congr' fun label => imp_congr_right fun _ => ?_
  constructor
  · rintro ⟨target, hlookup, hahead⟩
    refine ⟨target, lookup_after.mp hlookup, hahead, ?_⟩
    rw [← toList_after, Array.length_toList]
    exact (sound_after history).bound label target hlookup
  · rintro ⟨target, hbinds, hahead, _⟩
    exact ⟨target, lookup_after.mpr hbinds, hahead⟩

/-- What stands at a position of the finished sequence. -/
theorem settles_of_resolve_after {i : Instruction}
    (h : resolve (after history).bindings index opcode slot = .ok i) :
    i.opcode = opcode ∧ History.Settles history slot i.operand := by
  obtain ⟨hopcode, rfl | ⟨label, target, rfl, hlookup, _, hoperand⟩⟩ := resolve_ok h
  · exact ⟨hopcode, .ready _⟩
  · rw [hoperand]
    exact ⟨hopcode, .bound (lookup_after.mp hlookup)⟩

/-- Why the operation at a position does not resolve. -/
theorem offends_of_resolve_after
    (h : resolve (after history).bindings index opcode slot = .error e) :
    ∃ label, slot = .pending label ∧ History.Offends history index opcode label e := by
  obtain ⟨label, rfl, ⟨hlookup, rfl⟩ | ⟨target, hlookup, hle, rfl⟩⟩ := resolve_error h
  · exact ⟨label, rfl, .unbound (lookup_after_eq_none.mp hlookup)⟩
  · exact ⟨label, rfl, .notForward (lookup_after.mp hlookup) hle⟩

/-- Which histories can be finished. -/
theorem exists_finish_after :
    (∃ s, (after history).finish = .ok s) ↔
      (∃ slot, (History.emissions history).getLast? = some (.ret, slot)) ∧
      ∀ index opcode label, (History.emissions history)[index]? = some (opcode, .pending label) →
        History.LeadsAhead history index label := by
  have hresolves : (∃ instructions, resolveFrom (after history).bindings 0
        (after history).emitted.toList = .ok instructions) ↔
      ∀ index opcode label, (History.emissions history)[index]? = some (opcode, .pending label) →
        History.LeadsAhead history index label := by
    rw [exists_resolveFrom_ok, toList_after]
    constructor
    · intro h index opcode label hslot
      obtain ⟨i, hi⟩ := h index opcode _ hslot
      rw [Nat.zero_add] at hi
      exact exists_resolve_after.mp ⟨i, hi⟩ label rfl
    · intro h index opcode slot hslot
      rw [Nat.zero_add, exists_resolve_after]
      rintro label rfl
      exact h index opcode label hslot
  constructor
  · rintro ⟨s, hs⟩
    have hret := (sound_after history).getLast?_eq_ret hs
    rw [toList_after] at hret
    exact ⟨hret, hresolves.mp ⟨_, (finish_ok hs).2⟩⟩
  · rintro ⟨⟨slot, hlast⟩, hahead⟩
    rw [exists_finish_ok]
    refine ⟨⟨.ret, slot, ?_, rfl⟩, hresolves.mpr hahead⟩
    rw [toList_after]
    exact hlast

/-- A finished sequence is what has been emitted, with positions in the place of labels. -/
theorem settles_of_finish_after {s : Sequence} (hs : (after history).finish = .ok s) :
    List.Forall₂ (fun emission i => i.opcode = emission.1 ∧
      History.Settles history emission.2 i.operand) (History.emissions history)
      s.instructions := by
  obtain ⟨hlength, hall⟩ := resolveFrom_ok (finish_ok hs).2
  rw [toList_after] at hlength hall
  rw [List.forall₂_iff_get]
  refine ⟨hlength.symm, fun index hemission hinstruction => ?_⟩
  obtain ⟨opcode, slot, hslot, hresolve⟩ := hall index _ (List.getElem?_eq_getElem hinstruction)
  rw [Nat.zero_add] at hresolve
  rw [List.getElem?_eq_getElem hemission, Option.some.injEq] at hslot
  rw [List.get_eq_getElem, List.get_eq_getElem, hslot]
  exact settles_of_resolve_after hresolve

/-- Histories that have emitted and bound the same come to the same. -/
theorem finish_after_congr {other : List Command}
    (hemissions : History.emissions other = History.emissions history)
    (hbinds : ∀ label target, History.Binds other label target ↔
      History.Binds history label target) :
    (after other).finish = (after history).finish := by
  refine finish_congr (Array.toList_inj.mp ?_) fun label => Option.ext fun target => ?_
  · rw [toList_after, toList_after, hemissions]
  · rw [lookup_after, lookup_after]
    exact hbinds label target

/-- Which branch is to blame. -/
theorem offends_of_finish_after {last : OpCode}
    (hlast : (History.emissions history).getLast? = some (last, slot))
    (hterminal : last.isTerminal = true) (hfinish : (after history).finish = .error e) :
    ∃ index opcode label, (History.emissions history)[index]? = some (opcode, .pending label) ∧
      History.Offends history index opcode label e ∧
      ∀ earlier opcode' label', earlier < index →
        (History.emissions history)[earlier]? = some (opcode', .pending label') →
        History.LeadsAhead history earlier label' := by
  rw [← toList_after] at hlast
  have hresolve := resolveFrom_of_finish_error hfinish hlast hterminal
  rw [toList_after] at hresolve
  obtain ⟨index, opcode, slot, hslot, herror, hearlier⟩ := resolveFrom_error hresolve
  rw [Nat.zero_add] at herror
  obtain ⟨label, rfl, hoffends⟩ := offends_of_resolve_after herror
  refine ⟨index, opcode, label, hslot, hoffends, fun earlier opcode' label' hlt hget => ?_⟩
  obtain ⟨i, hi⟩ := hearlier earlier opcode' _ hlt hget
  rw [Nat.zero_add] at hi
  exact exists_resolve_after.mp ⟨i, hi⟩ label' rfl

/-- **What a history of requests comes to.**  A request that fails leaves the builder as it was.
The builder can be finished exactly if the last operation is a return and the label of every branch
has been bound to an operation emitted behind the branch.  The finished sequence is then what has
been emitted, in order, with the bound positions in the place of the labels; no other history with
these emissions and bindings comes to anything else, in whatever order it binds.  If the last
operation cannot be run past and the builder cannot be finished, then the first branch that cannot
be settled is to blame. -/
theorem finish_after (history : List Command) :
    (∀ (b : Builder) (c : Command) (e : Error), (c.step b).1 = .error e → (c.step b).2 = b) ∧
    ((∃ s, (after history).finish = .ok s) ↔
      (∃ slot, (History.emissions history).getLast? = some (.ret, slot)) ∧
      ∀ index opcode label, (History.emissions history)[index]? = some (opcode, .pending label) →
        History.LeadsAhead history index label) ∧
    (∀ s, (after history).finish = .ok s →
      List.Forall₂ (fun emission i => i.opcode = emission.1 ∧
        History.Settles history emission.2 i.operand) (History.emissions history)
        s.instructions) ∧
    (∀ other, History.emissions other = History.emissions history →
      (∀ label target, History.Binds other label target ↔ History.Binds history label target) →
      (after other).finish = (after history).finish) ∧
    ∀ last slot e, (History.emissions history).getLast? = some (last, slot) →
      last.isTerminal = true → (after history).finish = .error e →
      ∃ index opcode label, (History.emissions history)[index]? = some (opcode, .pending label) ∧
        History.Offends history index opcode label e ∧
        ∀ earlier opcode' label', earlier < index →
          (History.emissions history)[earlier]? = some (opcode', .pending label') →
          History.LeadsAhead history earlier label' := by
  refine ⟨fun b c e h => ?_, exists_finish_after, fun s hs => settles_of_finish_after hs,
    fun other hemissions hbinds => finish_after_congr hemissions hbinds,
    fun last slot e hlast hterminal hfinish => offends_of_finish_after hlast hterminal hfinish⟩
  rcases c.step_cases b with ⟨_, hstep⟩ | ⟨_, _, hstep, _⟩
  · rw [hstep]
  · rw [hstep] at h
    cases h

/-- A label that is bound twice, once to nothing, and a branch over an operation. -/
example :
    (after [.newLabel, .emit .ldarg0, .branch .brfalse ⟨0⟩, .emit .nop, .bind ⟨0⟩ ⟨3⟩, .emit .ret,
        .bind ⟨0⟩ ⟨3⟩]).finish =
      .ok ⟨[⟨.ldarg0, .none⟩, ⟨.brfalse, .target ⟨3⟩⟩, ⟨.nop, .none⟩, ⟨.ret, .none⟩]⟩ := by
  rfl

end Builder

end DualInit
