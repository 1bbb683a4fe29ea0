import DualInit.Proofs.Page.FlagConstructor
import DualInit.Storage.Store

/-!
# What a step leaves when it fails

Both steps that change a class make more than one change, and either of them can fail between two
changes.  What has been done by then is not taken back, so it has to be said what this can be.

* `ends_locate_error`: locating the initializers fails before the first change, for a type that is
  not there.  After the initializer was moved, only the number for the empty one can be missing.
* `ends_ensureFlagConstructor_error`: ensuring the flag constructor fails while the base constructor
  is looked for, before the first change, or afterwards.  What is left then is what looking for the
  base constructor has left: the section, with at most one more reference.

Nothing is assumed of tokens here, and nothing of other assemblies.
-/

namespace DualInit

variable {external : Resolver} {s s' : Section} {t : TypeDef} {m : MethodDef} {type : Token}
  {body : MethodBody} {initializers : Initializers} {e : Error}

/-! ## Locating -/

/-- Splitting an initializer fails only if there is no number for the empty one. -/
theorem ends_splitInitializer_error (ht : s.typeDef? t.token = some t) (hm : m ∈ t.methods)
    (h : (splitInitializer t m).Ends s (.error e) s') :
    ¬ s.HasRoom 1 ∧ e = .duplicateMethod s.nextMethodToken := by
  rw [splitInitializer, Edit.ends_tell_bind] at h
  rcases Edit.ends_bind_error.mp h with h | ⟨_, u, hmove, h⟩
  · exact absurd (Edit.ends_attemptChange_error.mp h).1 (Section.updateMethod_ne_error ht hm)
  · have hupdate : s.updateMethod t.token m.token MethodDef.moved = .ok u :=
      Edit.ends_attemptChange_ok.mp hmove
    rcases Edit.ends_bind_error.mp h with h | ⟨token, v, -, h⟩
    · obtain ⟨hadd, -⟩ := Edit.ends_attempt_error.mp h
      obtain ⟨_, v, -, -, hfound, -⟩ :=
        Section.exists_of_updateType (fun _ _ h => TypeDef.shell_of_updateMethod h) hupdate
      have hperm : (u.methods.map (·.token)).Perm (s.methods.map (·.token) ++ []) := by
        refine Section.tokens_of_updateType (fun t u h => ?_) hupdate
        rw [List.append_nil]
        exact TypeDef.map_of_updateMethod (fun _ => by rfl) h
      rw [List.append_nil] at hperm
      rw [Section.HasRoom, Section.nextMethodToken, Rows.next, ← Rows.greatest_perm hperm]
      exact Section.addMethod_error ((hfound t.token).trans (if_pos rfl)) hadd
    · simp [Edit.ends_map_error] at h

/-- Locating the initializers of a type fails, and has changed nothing, if the type is not there; it
fails otherwise only if there is no number for an empty initializer. -/
theorem ends_locate_error (h : (locate type).Ends s (.error e) s') :
    e = .typeNotFound type ∧ s' = s ∨ ¬ s.HasRoom 1 ∧ e = .duplicateMethod s.nextMethodToken := by
  rw [locate, Edit.ends_current_bind] at h
  cases ht : s.typeDef? type with
  | none =>
    simp only [ht, Edit.ends_fail, Except.error.injEq] at h
    exact Or.inl h
  | some t =>
    obtain rfl := Section.token_of_typeDef? ht
    cases hwhole : t.initializer? precompiledName with
    | none => simp [ht, hwhole, Edit.ends_map_error] at h
    | some whole =>
      cases hruntime : t.initializer? runtimeName with
      | some runtime => simp [ht, hwhole, hruntime] at h
      | none =>
        simp only [ht, hwhole, hruntime, Edit.ends_map_error] at h
        exact Or.inr (ends_splitInitializer_error ht (mem_of_initializer? hwhole) h)

/-! ## Ensuring the flag constructor -/

/-- A section has got the reference to the constructor that another assembly offers for the base type
of a type, and nothing else; there was no such reference. -/
inductive BaseImported (external : Resolver) (s : Section) (type : Token) : Section → Prop where
  | intro {t : TypeDef} {base : Token} {reference : TypeRef} {signature : Signature}
      (ht : s.typeDef? type = some t) (hbase : t.extends? = some base)
      (htable : base.table = Token.typeRefTable) (href : s.typeRef? base = some reference)
      (hsignature : external.offers reference = some signature)
      (hnew : s.memberRefs.find? (·.isTo base constructorName signature) = none) :
      BaseImported external s type (s.withRefs [s.newMemberRef base constructorName signature])

/-- Looking for the base constructor changes nothing, or it succeeds and has imported the
constructor. -/
theorem left_of_ends_baseConstructor {answer : Except Error Token}
    (h : (baseConstructor external type).Ends s answer s') :
    s' = s ∨ (∃ base, answer = .ok base) ∧ BaseImported external s type s' := by
  cases ends_baseConstructor_iff.mp h with
  | undefined _ => exact Or.inl rfl
  | lacks _ _ => exact Or.inl rfl
  | defined _ _ _ _ _ => exact Or.inl rfl
  | @referred _ _ base _ c ht hbase htable href hresolve hc =>
    have hsignature := offers_eq_some.mpr ⟨_, _, hresolve, hc, rfl⟩
    rcases importMethod_eq base constructorName c.signature s with ⟨r, -, himport⟩ | ⟨hnew, himport⟩
    · rw [himport]
      exact Or.inl rfl
    · rw [himport]
      exact Or.inr ⟨⟨_, rfl⟩, .intro ht hbase htable href hsignature hnew⟩

/-- A body of a method that a type owns can be replaced. -/
theorem not_ends_replaceBody_error (ht : s.typeDef? t.token = some t) (hm : m ∈ t.methods) :
    ¬ (replaceBody t m body).Ends s (.error e) s' := by
  intro h
  rw [replaceBody, Edit.ends_tell_bind] at h
  rcases Edit.ends_bind_error.mp h with h | ⟨_, u, -, h⟩
  · exact Section.updateMethod_ne_error ht hm (Edit.ends_attemptChange_error.mp h).1
  · rw [Edit.ends_change_bind, Edit.ends_pure] at h
    exact absurd h.1 (by simp)

theorem eq_of_ends_addFlagConstructor_error
    (h : (addFlagConstructor t body).Ends s (.error e) s') : s' = s := by
  rw [addFlagConstructor, Edit.ends_tell_bind] at h
  rcases Edit.ends_bind_error.mp h with h | ⟨token, u, -, h⟩
  · exact (Edit.ends_attempt_error.mp h).2
  · exact absurd (Edit.ends_pure.mp h).1 (by simp)

/-- Ensuring the flag constructor fails while the base constructor is looked for, or it leaves what
looking for it has left. -/
theorem ends_ensureFlagConstructor_error
    (h : (ensureFlagConstructor external type initializers).Ends s (.error e) s') :
    ∃ answer, (baseConstructor external type).Ends s answer s' := by
  rw [ensureFlagConstructor] at h
  rcases Edit.ends_bind_error.mp h with h | ⟨base, u, hbase, h⟩
  · exact ⟨_, h⟩
  · refine ⟨.ok base, ?_⟩
    suffices hleft : s' = u from hleft ▸ hbase
    rw [Edit.ends_current_bind] at h
    rcases Edit.ends_ofExcept_bind_error.mp h with ⟨-, rfl⟩ | ⟨precompiled, -, h⟩
    · rfl
    rcases Edit.ends_ofExcept_bind_error.mp h with ⟨-, rfl⟩ | ⟨runtime, -, h⟩
    · rfl
    rcases Edit.ends_ofExcept_bind_error.mp h with ⟨-, rfl⟩ | ⟨instructions, -, h⟩
    · rfl
    cases ht : u.typeDef? type with
    | none =>
      rw [ht] at h
      exact (Edit.ends_fail.mp h).2
    | some t =>
      obtain rfl := Section.token_of_typeDef? ht
      cases hc : t.flagConstructor? with
      | some existing =>
        simp only [ht, hc] at h
        exact absurd h (not_ends_replaceBody_error ht (List.mem_of_find?_eq_some hc))
      | none =>
        simp only [ht, hc] at h
        exact eq_of_ends_addFlagConstructor_error h

/-! ## Both steps -/

/-- A step that fails leaves the section as it was, as long as it does not fail for lack of a number
for an empty initializer, and except that a reference to the base constructor stays: if there is a
base constructor to call, and the flag constructor could not be ensured all the same, the reference
that was imported for the call is left behind. -/
theorem failed_step_leaves (external : Resolver) (s : Section) (type : Token)
    (initializers : Initializers) :
    (∀ e s', (locate type).Ends s (.error e) s' →
      e = .typeNotFound type ∧ s' = s ∨ ¬ s.HasRoom 1 ∧ e = .duplicateMethod s.nextMethodToken) ∧
    ∀ e s', (ensureFlagConstructor external type initializers).Ends s (.error e) s' →
      s' = s ∨
      (∃ base, (baseConstructor external type).Ends s (.ok base) s') ∧
        BaseImported external s type s' := by
  refine ⟨fun _ _ h => ends_locate_error h, fun e s' h => ?_⟩
  obtain ⟨answer, hanswer⟩ := ends_ensureFlagConstructor_error h
  rcases left_of_ends_baseConstructor hanswer with hsame | ⟨⟨base, rfl⟩, himported⟩
  · exact Or.inl hsame
  · exact Or.inr ⟨⟨base, hanswer⟩, himported⟩

/-! ## Samples -/

namespace Sample

/-- Other assemblies: one of them has a base type with a constructor. -/
def library : Resolver :=
  Codec.resolver
    ((Store.empty []).insert ⟨"bin/Views.dll"⟩ ⟨"Views", [⟨"Views.dll", [],
      [⟨⟨0x02000001⟩, "", "View", 0, none, none, [⟨⟨0x06000001⟩, constructorName,
        MethodFlags.instanceConstructor, 0, .instanceVoid, [], none⟩]⟩], [], [], none⟩]⟩)
    ⟨"bin/App.dll"⟩ []

/-- A section with a type that has this base type, and no methods. -/
def derived : Section :=
  ⟨"App.dll", [], [⟨⟨0x02000001⟩, "", "Page", 0, some ⟨0x01000001⟩, none, []⟩],
    [⟨⟨0x01000001⟩, "Views", "", "View"⟩], [], none⟩

/-- The section with the reference to the base constructor. -/
def derivedWithRef : Section :=
  derived.withRefs [⟨⟨0x0A000001⟩, ⟨0x01000001⟩, constructorName, .instanceVoid⟩]

/-- A section with a type that has an initializer and a method of number 0, and the last number is
in use. -/
def exhausted (name : String) : Section :=
  ⟨"App.dll", [], [⟨⟨0x02000001⟩, "", "Page", 0, none, none,
    [⟨⟨0x06FFFFFF⟩, name, 0, 0, .instanceVoid, [], none⟩,
      ⟨⟨0x06000000⟩, "Other", 0, 0, .instanceVoid, [], none⟩]⟩], [], [], none⟩

end Sample

theorem failed_step_leaves_sample :
    (locate ⟨0x02000002⟩).Ends Sample.derived (.error (.typeNotFound ⟨0x02000002⟩)) Sample.derived ∧
      (ensureFlagConstructor Sample.library ⟨0x02000001⟩ ⟨⟨0x06000002⟩, ⟨0x06000003⟩, false⟩).Ends
        Sample.derived (.error (.methodNotFound ⟨0x06000002⟩)) Sample.derivedWithRef ∧
      BaseImported Sample.library Sample.derived ⟨0x02000001⟩ Sample.derivedWithRef := by
  have hlocate : (locate ⟨0x02000002⟩).Ends Sample.derived (.error (.typeNotFound ⟨0x02000002⟩))
      Sample.derived := ⟨rfl, rfl⟩
  have hensure : (ensureFlagConstructor Sample.library ⟨0x02000001⟩
      ⟨⟨0x06000002⟩, ⟨0x06000003⟩, false⟩).Ends Sample.derived
      (.error (.methodNotFound ⟨0x06000002⟩)) Sample.derivedWithRef := ⟨rfl, rfl⟩
  have hleaves := failed_step_leaves Sample.library Sample.derived ⟨0x02000001⟩
    ⟨⟨0x06000002⟩, ⟨0x06000003⟩, false⟩
  refine ⟨hlocate, hensure, ?_⟩
  rcases hleaves.2 _ _ hensure with hsame | ⟨-, himported⟩
  · exact absurd hsame (by decide +kernel)
  · exact himported

/-- A flag constructor that cannot be ensured leaves a reference, and initializers that cannot be
split leave one that was moved. -/
theorem failed_steps_leaving_traces :
    ((ensureFlagConstructor Sample.library ⟨0x02000001⟩ ⟨⟨0x06000002⟩, ⟨0x06000003⟩, false⟩).Ends
        Sample.derived (.error (.methodNotFound ⟨0x06000002⟩)) Sample.derivedWithRef ∧
      Sample.derivedWithRef ≠ Sample.derived) ∧
    ((locate ⟨0x02000001⟩).Ends (Sample.exhausted precompiledName)
        (.error (.duplicateMethod ⟨0x06000000⟩)) (Sample.exhausted runtimeName) ∧
      Sample.exhausted runtimeName ≠ Sample.exhausted precompiledName) :=
  ⟨⟨⟨rfl, rfl⟩, by decide +kernel⟩, ⟨rfl, rfl⟩, by decide +kernel⟩

end DualInit
