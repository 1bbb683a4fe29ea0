import DualInit.Page.Initializers
import DualInit.Proofs.Metadata.Sections

/-!
# What becomes of initializers

`TypeDef.Halved` relates a type, the initializers found for it and the type they are found in:
either both were there and the type is as it was, or the one that was there has moved to its new
name and an empty one has come in its place.  `halved_of_ends_locate` and `ends_locate_none` say
that locating the initializers of a type comes to this, or to nothing for a type without any.

What else is read from a type does not depend on its initializers: its shell, its parameterless
constructor and its flag constructor are the same on both sides of `Halved`.
-/

namespace DualInit

/-- The initializer under the name it is moved to. -/
def MethodDef.moved (m : MethodDef) : MethodDef :=
  { m with name := runtimeName }

/-- A type, its initializers, and the type in which they are found; a method that is added takes
the token `fresh`. -/
inductive TypeDef.Halved (fresh : Token) (t : TypeDef) : Initializers → TypeDef → Prop where
  /-- Both initializers were there. -/
  | kept {whole runtime : MethodDef} (hwhole : t.initializer? precompiledName = some whole)
      (hruntime : t.initializer? runtimeName = some runtime) :
      Halved fresh t ⟨whole.token, runtime.token, false⟩ t
  /-- The one that was there was split. -/
  | split {whole : MethodDef} (hwhole : t.initializer? precompiledName = some whole)
      (hruntime : t.initializer? runtimeName = none) :
      Halved fresh t ⟨fresh, whole.token, true⟩
        ((t.setMethod whole.moved).append { whole.placeholder with token := fresh })

variable {s s' : Section} {t u : TypeDef} {m : MethodDef} {type fresh : Token}
  {initializers : Initializers}

theorem mem_of_initializer? {name : String} (h : t.initializer? name = some m) : m ∈ t.methods :=
  List.mem_of_find?_eq_some h

theorem isInitializer_of_initializer? {name : String} (h : t.initializer? name = some m) :
    m.isInitializer name = true :=
  List.find?_some h

theorem MethodDef.isInitializer_iff {name : String} :
    m.isInitializer name = true ↔ m.name = name ∧ m.isParameterless = true := by
  rw [isInitializer, Bool.and_eq_true, beq_iff_eq]

/-! ## Locating -/

/-- A type without an initializer is left as it is. -/
theorem ends_locate_none :
    (locate type).Ends s (.ok none) s' ↔
      ∃ t, s.typeDef? type = some t ∧ t.initializer? precompiledName = none ∧ s' = s := by
  rw [locate, Edit.ends_current_bind]
  cases ht : s.typeDef? type with
  | none => simp
  | some t =>
    cases hwhole : t.initializer? precompiledName with
    | none => simp only [hwhole, Edit.ends_tell_bind, Edit.ends_pure]; simp [hwhole]
    | some whole =>
      cases hruntime : t.initializer? runtimeName with
      | none => simp [hwhole, hruntime, Edit.ends_map_ok]
      | some runtime => simp [hwhole, hruntime]

/-- Looking for initializers where there are none changes nothing. -/
theorem eq_of_ends_locate_none (h : (locate type).Ends s (.ok none) s') : s' = s := by
  obtain ⟨-, -, -, rfl⟩ := ends_locate_none.mp h
  rfl

theorem ends_splitInitializer_ok :
    (splitInitializer t m).Ends s (.ok initializers) s' ↔
      ∃ u token, s.updateMethod t.token m.token MethodDef.moved = .ok u ∧
        u.addMethod t.token ((t.method? m.token).getD m).placeholder = .ok (token, s') ∧
        initializers = ⟨token, m.token, true⟩ := by
  rw [splitInitializer, Edit.ends_tell_bind]
  simp only [Edit.ends_bind_ok, Edit.ends_attemptChange_ok, Edit.ends_attempt_ok, Edit.ends_tell,
    Edit.ends_pure, Except.ok.injEq]
  constructor
  · rintro ⟨_, u, hmove, token, _, hadd, _, _, ⟨-, rfl⟩, hinit, rfl⟩
    exact ⟨u, token, hmove, hadd, hinit⟩
  · rintro ⟨u, token, hmove, hadd, hinit⟩
    exact ⟨(), u, hmove, token, s', hadd, (), s', ⟨trivial, rfl⟩, hinit, rfl⟩

/-- Initializers that are found were there, or one of them has been split. -/
theorem ends_locate_some :
    (locate type).Ends s (.ok (some initializers)) s' ↔
      ∃ t whole, s.typeDef? type = some t ∧ t.initializer? precompiledName = some whole ∧
        ((∃ runtime, t.initializer? runtimeName = some runtime ∧
            initializers = ⟨whole.token, runtime.token, false⟩ ∧ s' = s) ∨
          t.initializer? runtimeName = none ∧
            (splitInitializer t whole).Ends s (.ok initializers) s') := by
  rw [locate, Edit.ends_current_bind]
  cases ht : s.typeDef? type with
  | none => simp
  | some t =>
    cases hwhole : t.initializer? precompiledName with
    | none => simp only [hwhole, Edit.ends_tell_bind, Edit.ends_pure]; simp [hwhole]
    | some whole =>
      cases hruntime : t.initializer? runtimeName with
      | some runtime => simp [hwhole, hruntime]
      | none => simp [hwhole, hruntime, Edit.ends_map_ok]

/-- Moving an initializer uses up no token. -/
theorem nextMethodToken_setType_moved (hs : s.TokensDistinct) (ht : s.typeDef? t.token = some t) :
    (s.setType (t.setMethod m.moved)).nextMethodToken = s.nextMethodToken := by
  have hperm := Section.tokens_setType_of_eq (u := t.setMethod m.moved) hs ht
    TypeDef.map_token_setMethod
  rw [Section.nextMethodToken, Section.nextMethodToken, Rows.next, Rows.next,
    Rows.greatest_perm hperm]

theorem tokensDistinct_setType_moved (hs : s.TokensDistinct) (ht : s.typeDef? t.token = some t) :
    (s.setType (t.setMethod m.moved)).TokensDistinct := by
  refine hs.setType [] ht ?_ ?_
  · rw [TypeDef.map_token_setMethod, List.append_nil]
  · rw [List.append_nil]
    exact hs.methods

/-- Splitting an initializer of a type moves it and adds an empty one, unless the token for the
latter is in use. -/
theorem ends_splitInitializer (hs : s.TokensDistinct) (ht : s.typeDef? t.token = some t)
    (hm : m ∈ t.methods) :
    (splitInitializer t m).Ends s (.ok initializers) s' ↔
      t.method? s.nextMethodToken = none ∧ initializers = ⟨s.nextMethodToken, m.token, true⟩ ∧
        s' = s.setType ((t.setMethod m.moved).append
          { m.placeholder with token := s.nextMethodToken }) := by
  have hfound := TypeDef.method?_of_mem (hs.of_mem (Section.mem_of_typeDef? ht)) hm
  have hupdate : s.updateMethod t.token m.token MethodDef.moved =
      .ok (s.setType (t.setMethod m.moved)) :=
    (Section.updateMethod_ok MethodDef.moved hs fun _ => rfl).mpr ⟨t, m, ht, hfound, rfl⟩
  have htype : (s.setType (t.setMethod m.moved)).typeDef? t.token = some (t.setMethod m.moved) :=
    Section.typeDef?_setType_self ht rfl
  have hagain (p : MethodDef) : (s.setType (t.setMethod m.moved)).setType
      ((t.setMethod m.moved).append p) = s.setType ((t.setMethod m.moved).append p) :=
    Section.setType_setType rfl
  have hdistinct := tokensDistinct_setType_moved (m := m) hs ht
  have hnext := nextMethodToken_setType_moved (m := m) hs ht
  rw [ends_splitInitializer_ok, hfound, Option.getD_some]
  constructor
  · rintro ⟨u, token, hmove, hadd, rfl⟩
    obtain rfl := Except.ok.inj (hupdate.symm.trans hmove)
    obtain ⟨t', ht', hnone, rfl, rfl⟩ := (Section.addMethod_ok hdistinct).mp hadd
    obtain rfl := Option.some.inj (htype.symm.trans ht')
    rw [hnext] at hnone ⊢
    exact ⟨TypeDef.method?_setMethod_eq_none.mp hnone, rfl, hagain _⟩
  · rintro ⟨hnone, rfl, rfl⟩
    refine ⟨_, _, hupdate, (Section.addMethod_ok hdistinct).mpr ⟨_, htype, ?_, hnext.symm, ?_⟩, rfl⟩
    · rw [hnext]
      exact TypeDef.method?_setMethod_eq_none.mpr hnone
    · rw [hnext]
      exact (hagain _).symm

/-- Locating the initializers of a type that has them halves the type. -/
theorem halved_of_ends_locate (hs : s.TokensDistinct)
    (h : (locate type).Ends s (.ok (some initializers)) s') :
    ∃ t u, s.typeDef? type = some t ∧ t.Halved s.nextMethodToken initializers u ∧
      s' = s.setType u := by
  obtain ⟨t, whole, ht, hwhole, hfound⟩ := ends_locate_some.mp h
  obtain rfl := Section.token_of_typeDef? ht
  rcases hfound with ⟨runtime, hruntime, rfl, rfl⟩ | ⟨hruntime, hsplit⟩
  · exact ⟨t, t, ht, .kept hwhole hruntime, (Section.setType_self hs ht).symm⟩
  · obtain ⟨-, rfl, rfl⟩ := (ends_splitInitializer hs ht (mem_of_initializer? hwhole)).mp hsplit
    exact ⟨t, _, ht, .split hwhole hruntime, rfl⟩

/-- A type that has both initializers is left as it is. -/
theorem ends_locate_of_kept {whole runtime : MethodDef} (ht : s.typeDef? type = some t)
    (hwhole : t.initializer? precompiledName = some whole)
    (hruntime : t.initializer? runtimeName = some runtime) :
    (locate type).Ends s (.ok (some ⟨whole.token, runtime.token, false⟩)) s := by
  rw [locate, Edit.ends_current_bind]
  simp only [ht, hwhole, hruntime, Edit.ends_pure]
  exact ⟨trivial, trivial⟩

/-! ## What a halved type has -/

namespace TypeDef

/-- No two methods of a type are initializers of the name a page comes with. -/
def HasOneInitializer (t : TypeDef) : Prop :=
  t.methods.countP (·.isInitializer precompiledName) ≤ 1

theorem HasOneInitializer.eq {m' : MethodDef} (h : t.HasOneInitializer) (hm : m ∈ t.methods)
    (hm' : m' ∈ t.methods) (hinit : m.isInitializer precompiledName = true)
    (hinit' : m'.isInitializer precompiledName = true) : m = m' := by
  rw [HasOneInitializer, List.countP_eq_length_filter] at h
  have hmem := List.mem_filter.mpr ⟨hm, hinit⟩
  have hmem' := List.mem_filter.mpr ⟨hm', hinit'⟩
  generalize t.methods.filter (·.isInitializer precompiledName) = found at h hmem hmem'
  match found, h with
  | [], _ => exact absurd hmem List.not_mem_nil
  | [x], _ => rw [List.mem_singleton.mp hmem, List.mem_singleton.mp hmem']

theorem Halved.shell (h : t.Halved fresh initializers u) : u.shell = t.shell := by
  cases h <;> rfl

theorem Halved.token (h : t.Halved fresh initializers u) : u.token = t.token := by
  cases h <;> rfl

/-- Halving a type takes up the new token if it adds a method, and no token otherwise. -/
theorem Halved.tokens (h : t.Halved s.nextMethodToken initializers u) :
    u.methods.map (·.token) =
      t.methods.map (·.token) ++ s.newTokens initializers.placeholderCreated := by
  cases h with
  | kept => exact (List.append_nil _).symm
  | split =>
    rw [methods_append, List.map_append, map_token_setMethod]
    rfl

/-- What no initializer has is found in a halved type where it was found before. -/
theorem Halved.find? (h : t.Halved fresh initializers u)
    (hdistinct : (t.methods.map (·.token)).Nodup) {p : MethodDef → Bool}
    (hp : ∀ m, m.name = precompiledName ∨ m.name = runtimeName → p m = false) :
    u.methods.find? p = t.methods.find? p := by
  cases h with
  | kept => rfl
  | @split whole hwhole =>
    have hname := (MethodDef.isInitializer_iff.mp (isInitializer_of_initializer? hwhole)).1
    have hset : (t.setMethod whole.moved).methods.find? p = t.methods.find? p := by
      refine Rows.find?_set_of_false (fun r hr heq => ?_) (hp _ (Or.inr rfl))
      rw [eq_of_mem_of_token hdistinct hr (mem_of_initializer? hwhole) heq]
      exact hp _ (Or.inl hname)
    have hnew : [{ whole.placeholder with token := fresh }].find? p = none := by
      rw [List.find?_singleton, hp _ (Or.inl rfl)]
      rfl
    rw [methods_append, List.find?_append, hset, hnew, Option.or_none]

/-- The precompiled initializer is among the methods of a halved type. -/
theorem Halved.exists_precompiled (h : t.Halved fresh initializers u) :
    ∃ p ∈ u.methods, p.token = initializers.precompiled ∧
      p.isInitializer precompiledName = true := by
  cases h with
  | kept hwhole => exact ⟨_, mem_of_initializer? hwhole, rfl, isInitializer_of_initializer? hwhole⟩
  | split =>
    refine ⟨_, List.mem_append_right _ (List.mem_singleton_self _), rfl, ?_⟩
    exact MethodDef.isInitializer_iff.mpr ⟨rfl, rfl⟩

/-- A halved type has one initializer under the name for run time, the one that was found. -/
theorem Halved.initializer?_runtime (h : t.Halved fresh initializers u) :
    ∃ r, u.initializer? runtimeName = some r ∧ r.token = initializers.runtime := by
  cases h with
  | kept _ hruntime => exact ⟨_, hruntime, rfl⟩
  | @split whole hwhole hruntime =>
    have hparams := (MethodDef.isInitializer_iff.mp (isInitializer_of_initializer? hwhole)).2
    have hold : whole.token ∈ t.methods.map (·.token) :=
      List.mem_map_of_mem (mem_of_initializer? hwhole)
    have hset : (t.setMethod whole.moved).methods.find? (·.isInitializer runtimeName) =
        some whole.moved :=
      Rows.find?_set_of_none hruntime hold (MethodDef.isInitializer_iff.mpr ⟨rfl, hparams⟩)
    refine ⟨whole.moved, ?_, rfl⟩
    rw [initializer?, methods_append, List.find?_append, hset, Option.some_or]

/-- Where there was one initializer and it was moved there is none. -/
theorem HasOneInitializer.initializer?_moved {whole : MethodDef} (hone : t.HasOneInitializer)
    (hwhole : t.initializer? precompiledName = some whole) :
    (t.setMethod whole.moved).initializer? precompiledName = none := by
  refine List.find?_eq_none.mpr fun r hr hinit => ?_
  rcases Rows.mem_set.mp hr with ⟨hr, hne⟩ | ⟨-, -, -, rfl⟩
  · rw [hone.eq hr (mem_of_initializer? hwhole) hinit
      (isInitializer_of_initializer? hwhole)] at hne
    exact hne rfl
  · have hname : runtimeName = precompiledName := (MethodDef.isInitializer_iff.mp hinit).1
    exact absurd hname (by decide)

/-- With one initializer to begin with, the precompiled one is the first of its name. -/
theorem Halved.initializer?_precompiled (h : t.Halved fresh initializers u)
    (hone : t.HasOneInitializer) :
    ∃ p, u.initializer? precompiledName = some p ∧ p.token = initializers.precompiled := by
  cases h with
  | kept hwhole => exact ⟨_, hwhole, rfl⟩
  | @split whole hwhole =>
    have hnone := hone.initializer?_moved hwhole
    refine ⟨{ whole.placeholder with token := fresh }, ?_, rfl⟩
    rw [initializer?] at hnone
    rw [initializer?, methods_append, List.find?_append, hnone, Option.none_or]
    exact List.find?_cons_of_pos (MethodDef.isInitializer_iff.mpr ⟨rfl, rfl⟩)

theorem Halved.hasOneInitializer (h : t.Halved fresh initializers u)
    (hone : t.HasOneInitializer) : u.HasOneInitializer := by
  cases h with
  | kept => exact hone
  | @split whole hwhole =>
    have hnone := List.find?_eq_none.mp (hone.initializer?_moved hwhole)
    have hcount : (t.setMethod whole.moved).methods.countP (·.isInitializer precompiledName) = 0 :=
      List.countP_eq_zero.mpr hnone
    rw [HasOneInitializer, methods_append, List.countP_append, hcount, Nat.zero_add]
    exact List.countP_le_length

end TypeDef
end DualInit
