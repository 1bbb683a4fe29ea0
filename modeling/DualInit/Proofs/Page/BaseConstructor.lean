import DualInit.Page.BaseConstructor
import DualInit.Proofs.Metadata.Names

/-!
# Which constructor is called first

`CallsBase` says which token a constructor of a type has to call for its base type: that of a
constructor that the section defines, or that of a reference to a constructor which another
assembly offers.  `callsBase_of_ends` says that a base constructor that is answered is one of
these in the section that is left, where at most one reference is new, and `ends_baseConstructor`
that asking again answers the same and changes nothing.

Both follow from what the search comes to: `BaseSearch` lists its endings, with the reasons why there
is no constructor to call (`LacksBase`), and `ends_baseConstructor_iff` says that these are all.

Of other assemblies nothing matters but the signatures of parameterless constructors
(`Resolver.offers`).
-/

namespace DualInit

/-- The signature of the parameterless constructor of a referenced type, if it can be found. -/
def Resolver.offers (external : Resolver) (r : TypeRef) : Option Signature :=
  match (external.resolve r.scope r.qualifiedName).1 with
  | .ok found => (found.bind (·.parameterlessConstructor?)).map (·.signature)
  | .error _ => none

/-- The section with more references to methods. -/
def Section.withRefs (refs : List MemberRef) (s : Section) : Section :=
  { s with memberRefs := s.memberRefs ++ refs }

/-- The constructors that a type's own constructors may call first, by token and signature. -/
inductive CallsBase (external : Resolver) (s : Section) (t : TypeDef) : Token → Signature → Prop where
  /-- A constructor of a type that the section defines. -/
  | defined {base : Token} {b : TypeDef} {c : MethodDef} (hbase : t.extends? = some base)
      (htable : base.table = Token.typeDefTable) (hb : s.typeDef? base = some b)
      (hc : b.parameterlessConstructor? = some c) : CallsBase external s t c.token c.signature
  /-- A reference to a constructor of a type that another assembly defines. -/
  | referred {base : Token} {reference : TypeRef} {signature : Signature} {r : MemberRef}
      (hbase : t.extends? = some base) (htable : base.table = Token.typeRefTable)
      (href : s.typeRef? base = some reference) (hsignature : external.offers reference = some signature)
      (hr : s.memberRefs.find? (·.isTo base constructorName signature) = some r) :
      CallsBase external s t r.token signature

/-- A reference to a base constructor. -/
structure BaseReference (s : Section) (r : MemberRef) : Prop where
  name : r.name = constructorName
  /-- The constructor is called on an object. -/
  hasThis : r.signature.hasThis = true
  params : r.signature.params = []
  /-- It belongs to a referenced type. -/
  parent : r.parent.table = Token.typeRefTable ∧ (s.typeRef? r.parent).isSome

/-- A reference to a base constructor that is new in a section. -/
structure NewBaseReference (s : Section) (r : MemberRef) : Prop extends BaseReference s r where
  isNew : s.memberRefs.find? (·.isTo r.parent r.name r.signature) = none

variable {external : Resolver} {s s' : Section} {t t' : TypeDef} {type token : Token}
  {signature : Signature}

/-! ## Parameterless constructors -/

theorem shape_of_parameterlessConstructor? {c : MethodDef}
    (h : t.parameterlessConstructor? = some c) :
    c ∈ t.methods ∧ c.isInstanceConstructor = true ∧ c.signature.hasThis = true ∧
      c.signature.params = [] := by
  have hc : c.isInstanceConstructor = true ∧ c.isParameterless = true := by
    simpa using List.find?_some h
  refine ⟨List.mem_of_find?_eq_some h, hc.1, ?_, List.isEmpty_iff.mp hc.2⟩
  exact (Bool.and_eq_true_iff.mp hc.1).2

/-- What is offered is the signature of a constructor that the reference leads to. -/
theorem offers_eq_some {r : TypeRef} : external.offers r = some signature ↔
    ∃ b c, (external.resolve r.scope r.qualifiedName).1 = .ok (some b) ∧
      b.parameterlessConstructor? = some c ∧ c.signature = signature := by
  unfold Resolver.offers
  cases (external.resolve r.scope r.qualifiedName).1 with
  | error e => simp
  | ok found => cases found <;> simp

theorem shape_of_offers {r : TypeRef} (h : external.offers r = some signature) :
    signature.hasThis = true ∧ signature.params = [] := by
  obtain ⟨_, _, -, hc, rfl⟩ := offers_eq_some.mp h
  exact (shape_of_parameterlessConstructor? hc).2.2

/-- A base constructor is called on an object and takes nothing else. -/
theorem CallsBase.shape (h : CallsBase external s t token signature) :
    signature.hasThis = true ∧ signature.params = [] := by
  cases h with
  | defined _ _ _ hc => exact (shape_of_parameterlessConstructor? hc).2.2
  | referred _ _ _ hsignature _ => exact shape_of_offers hsignature

/-! ## What the search comes to -/

/-- Why a type has no constructor to call first. -/
inductive LacksBase (external : Resolver) (s : Section) (t : TypeDef) : Error → Prop where
  | noBase (hbase : t.extends? = none) : LacksBase external s t
      (.baseConstructorNotFound ((s.typeName t.token).getD t.qualifiedName) .noBase)
  /-- The base type is the section's own, and it is not there or has no such constructor. -/
  | defined {base : Token} (hbase : t.extends? = some base)
      (htable : base.table = Token.typeDefTable)
      (hnone : (s.typeDef? base).bind (·.parameterlessConstructor?) = none) : LacksBase external s t
      (.baseConstructorNotFound ((s.typeName t.token).getD t.qualifiedName)
        (.noConstructor ((s.typeName base).getD base.text)))
  | unreferenced {base : Token} (hbase : t.extends? = some base)
      (htable : base.table = Token.typeRefTable) (href : s.typeRef? base = none) :
      LacksBase external s t (.typeNotFound base)
  | unresolved {base : Token} {reference : TypeRef} {e : Error} (hbase : t.extends? = some base)
      (htable : base.table = Token.typeRefTable) (href : s.typeRef? base = some reference)
      (hresolve : (external.resolve reference.scope reference.qualifiedName).1 = .error e) :
      LacksBase external s t e
  /-- The reference leads to an assembly that does not define the type, or to a type that has no
  such constructor. -/
  | referred {base : Token} {reference : TypeRef} {found : Option TypeDef}
      (hbase : t.extends? = some base) (htable : base.table = Token.typeRefTable)
      (href : s.typeRef? base = some reference)
      (hresolve : (external.resolve reference.scope reference.qualifiedName).1 = .ok found)
      (hnone : found.bind (·.parameterlessConstructor?) = none) : LacksBase external s t
      (.baseConstructorNotFound ((s.typeName t.token).getD t.qualifiedName)
        (.noConstructor ((s.typeName base).getD base.text)))
  | constructed {base : Token} (hbase : t.extends? = some base)
      (htable : base.table = Token.typeSpecTable) : LacksBase external s t
      (.baseConstructorNotFound ((s.typeName t.token).getD t.qualifiedName) (.constructedType base))
  /-- The token of the base type is of a table of other things. -/
  | foreign {base : Token} (hbase : t.extends? = some base)
      (htable : base.table ∉ [Token.typeDefTable, Token.typeRefTable, Token.typeSpecTable]) :
      LacksBase external s t
        (.baseConstructorNotFound ((s.typeName t.token).getD t.qualifiedName) (.foreignTable base))

/-- What looking for the constructor of a type's base type comes to, and what it leaves. -/
inductive BaseSearch (external : Resolver) (s : Section) (type : Token) :
    Except Error Token → Section → Prop where
  | undefined (ht : s.typeDef? type = none) : BaseSearch external s type (.error (.typeNotFound type)) s
  | lacks {t : TypeDef} {e : Error} (ht : s.typeDef? type = some t) (h : LacksBase external s t e) :
      BaseSearch external s type (.error e) s
  | defined {t b : TypeDef} {base : Token} {c : MethodDef} (ht : s.typeDef? type = some t)
      (hbase : t.extends? = some base) (htable : base.table = Token.typeDefTable)
      (hb : s.typeDef? base = some b) (hc : b.parameterlessConstructor? = some c) :
      BaseSearch external s type (.ok c.token) s
  /-- Another assembly defines the constructor, and it is referred to. -/
  | referred {t b : TypeDef} {base : Token} {reference : TypeRef} {c : MethodDef}
      (ht : s.typeDef? type = some t) (hbase : t.extends? = some base)
      (htable : base.table = Token.typeRefTable) (href : s.typeRef? base = some reference)
      (hresolve : (external.resolve reference.scope reference.qualifiedName).1 = .ok (some b))
      (hc : b.parameterlessConstructor? = some c) :
      BaseSearch external s type (.ok (s.importMethod base constructorName c.signature).1)
        (s.importMethod base constructorName c.signature).2

/-- Each of these endings arises. -/
theorem BaseSearch.ends {answer : Except Error Token} (h : BaseSearch external s type answer s') :
    (baseConstructor external type).Ends s answer s' := by
  have href : Token.typeRefTable ≠ Token.typeDefTable := by decide
  have hspec : Token.typeSpecTable ≠ Token.typeDefTable ∧
      Token.typeSpecTable ≠ Token.typeRefTable := by decide
  rw [baseConstructor, Edit.ends_current_bind]
  cases h with
  | undefined ht => simp [ht]
  | lacks ht h =>
    obtain rfl := Rows.key_eq_of_find? ht
    cases h with
    | noBase hbase => simp [ht, hbase]
    | defined hbase htable hnone => simp [ht, hbase, htable, hnone]
    | unreferenced hbase htable hmissing => simp [ht, hbase, htable, hmissing, href]
    | unresolved hbase htable hreference hresolve =>
      simp only [ht, hbase, htable, hreference, if_neg href, if_true]
      rw [(Edit.ends_consult.mpr ⟨hresolve.symm, rfl⟩).bind_error_iff]
      exact ⟨rfl, rfl⟩
    | referred hbase htable hreference hresolve hnone =>
      simp only [ht, hbase, htable, hreference, if_neg href, if_true]
      rw [(Edit.ends_consult.mpr ⟨hresolve.symm, rfl⟩).bind_iff]
      simp [hnone]
    | constructed hbase htable => simp [ht, hbase, htable, hspec]
    | @foreign base hbase htable =>
      have htable : base.table ≠ Token.typeDefTable ∧ base.table ≠ Token.typeRefTable ∧
          base.table ≠ Token.typeSpecTable := by simpa using htable
      simp [ht, hbase, htable]
  | defined ht hbase htable hb hc => simp [ht, hbase, htable, hb, hc]
  | referred ht hbase htable hreference hresolve hc =>
    simp only [ht, hbase, htable, hreference, if_neg href, if_true]
    rw [(Edit.ends_consult.mpr ⟨hresolve.symm, rfl⟩).bind_iff]
    simp only [Option.bind_some, hc, Edit.ends_replace_bind, Edit.ends_tell_bind, Edit.ends_pure]
    exact ⟨trivial, trivial⟩

/-- There are no other endings: one of these is there for every section and every token. -/
theorem exists_baseSearch (external : Resolver) (s : Section) (type : Token) :
    ∃ answer s', BaseSearch external s type answer s' := by
  cases ht : s.typeDef? type with
  | none => exact ⟨_, _, .undefined ht⟩
  | some t =>
    cases hbase : t.extends? with
    | none => exact ⟨_, _, .lacks ht (.noBase hbase)⟩
    | some base =>
      by_cases hdef : base.table = Token.typeDefTable
      · cases hfound : (s.typeDef? base).bind (·.parameterlessConstructor?) with
        | none => exact ⟨_, _, .lacks ht (.defined hbase hdef hfound)⟩
        | some c =>
          obtain ⟨b, hb, hc⟩ := Option.bind_eq_some_iff.mp hfound
          exact ⟨_, _, .defined ht hbase hdef hb hc⟩
      by_cases href : base.table = Token.typeRefTable
      · cases hreference : s.typeRef? base with
        | none => exact ⟨_, _, .lacks ht (.unreferenced hbase href hreference)⟩
        | some reference =>
          cases hresolve : (external.resolve reference.scope reference.qualifiedName).1 with
          | error e => exact ⟨_, _, .lacks ht (.unresolved hbase href hreference hresolve)⟩
          | ok found =>
            cases hfound : found.bind (·.parameterlessConstructor?) with
            | none => exact ⟨_, _, .lacks ht (.referred hbase href hreference hresolve hfound)⟩
            | some c =>
              obtain ⟨b, rfl, hc⟩ := Option.bind_eq_some_iff.mp hfound
              exact ⟨_, _, .referred ht hbase href hreference hresolve hc⟩
      by_cases hspec : base.table = Token.typeSpecTable
      · exact ⟨_, _, .lacks ht (.constructed hbase hspec)⟩
      · exact ⟨_, _, .lacks ht (.foreign hbase (by simp [hdef, href, hspec]))⟩

/-- Looking for the base constructor comes to exactly these endings. -/
theorem ends_baseConstructor_iff {answer : Except Error Token} :
    (baseConstructor external type).Ends s answer s' ↔ BaseSearch external s type answer s' := by
  refine ⟨fun h => ?_, BaseSearch.ends⟩
  obtain ⟨answer', u, hsearch⟩ := exists_baseSearch external s type
  obtain ⟨rfl, rfl⟩ := hsearch.ends.unique h
  exact hsearch

/-! ## Finding the constructor -/

/-- The reference that a section gets for a method it has not referred to. -/
def Section.newMemberRef (s : Section) (parent : Token) (name : String) (signature : Signature) :
    MemberRef :=
  ⟨s.nextMemberRefToken, parent, name, signature⟩

/-- Referring to a method finds a reference or adds one. -/
theorem importMethod_eq (parent : Token) (name : String) (signature : Signature) (s : Section) :
    (∃ r, s.memberRefs.find? (·.isTo parent name signature) = some r ∧
      s.importMethod parent name signature = (r.token, s)) ∨
    (s.memberRefs.find? (·.isTo parent name signature) = none ∧
      s.importMethod parent name signature =
        (s.nextMemberRefToken, s.withRefs [s.newMemberRef parent name signature])) := by
  unfold Section.importMethod
  cases s.memberRefs.find? (·.isTo parent name signature) with
  | none => exact Or.inr ⟨rfl, rfl⟩
  | some r => exact Or.inl ⟨r, rfl, rfl⟩

@[simp] theorem withRefs_nil (s : Section) : s.withRefs [] = s := by
  rw [Section.withRefs, List.append_nil]

/-- A constructor that another assembly offers can be called once it is referred to. -/
theorem callsBase_importMethod {base : Token} {reference : TypeRef} (hbase : t.extends? = some base)
    (htable : base.table = Token.typeRefTable) (href : s.typeRef? base = some reference)
    (hsignature : external.offers reference = some signature) :
    ∃ refs, (s.importMethod base constructorName signature).2 = s.withRefs refs ∧
      CallsBase external (s.withRefs refs) t
        (s.importMethod base constructorName signature).1 signature ∧
      refs.length ≤ 1 ∧ ∀ r ∈ refs, NewBaseReference s r := by
  rcases importMethod_eq base constructorName signature s with ⟨r, hr, himport⟩ | ⟨hnone, himport⟩
  · rw [himport]
    refine ⟨[], (withRefs_nil s).symm, ?_, Nat.zero_le _, by simp⟩
    rw [withRefs_nil]
    exact .referred hbase htable href hsignature hr
  · rw [himport]
    refine ⟨_, rfl, ?_, Nat.le_refl 1, ?_⟩
    · refine .referred (r := s.newMemberRef base constructorName signature) hbase htable href
        hsignature ?_
      show (s.memberRefs ++ [_]).find? _ = _
      rw [List.find?_append, hnone, Option.none_or]
      exact List.find?_cons_of_pos (by simp [MemberRef.isTo, Section.newMemberRef])
    · intro r hr
      obtain rfl := List.mem_singleton.mp hr
      obtain ⟨hthis, hparams⟩ := shape_of_offers hsignature
      have hparent : (s.typeRef? base).isSome = true := by
        rw [href]
        rfl
      exact ⟨⟨rfl, hthis, hparams, ⟨htable, hparent⟩⟩, hnone⟩

/-- A base constructor that is answered is one that can be called in the section that is left. -/
theorem callsBase_of_ends (h : (baseConstructor external type).Ends s (.ok token) s') :
    ∃ t refs signature, s.typeDef? type = some t ∧ s' = s.withRefs refs ∧
      CallsBase external s' t token signature ∧ refs.length ≤ 1 ∧
      ∀ r ∈ refs, NewBaseReference s r := by
  cases ends_baseConstructor_iff.mp h with
  | defined ht hbase htable hb hc =>
    exact ⟨_, [], _, ht, (withRefs_nil _).symm, .defined hbase htable hb hc, Nat.zero_le _, by simp⟩
  | referred ht hbase htable href hresolve hc =>
    obtain ⟨refs, hrefs, hcalls, hlength, hnew⟩ :=
      callsBase_importMethod hbase htable href (offers_eq_some.mpr ⟨_, _, hresolve, hc, rfl⟩)
    exact ⟨_, refs, _, ht, hrefs, hrefs ▸ hcalls, hlength, hnew⟩

/-- A base constructor that can be called without a new reference is answered, and nothing
changes. -/
theorem ends_baseConstructor (ht : s.typeDef? type = some t)
    (h : CallsBase external s t token signature) :
    (baseConstructor external type).Ends s (.ok token) s := by
  cases h with
  | defined hbase htable hb hc => exact ends_baseConstructor_iff.mpr (.defined ht hbase htable hb hc)
  | @referred base _ _ r hbase htable href hsignature hr =>
    obtain ⟨_, c, hresolve, hc, rfl⟩ := offers_eq_some.mp hsignature
    have hends := ends_baseConstructor_iff.mpr (.referred ht hbase htable href hresolve hc)
    rcases importMethod_eq base constructorName c.signature s with ⟨r', hr', himport⟩ | ⟨hnone, -⟩
    · obtain rfl := Option.some.inj (hr.symm.trans hr')
      rwa [himport] at hends
    · exact absurd (hr.symm.trans hnone) (by simp)

/-! ## What the constructor depends on -/

/-- A base constructor can be called wherever the types have kept their parameterless
constructors and the references are still there. -/
theorem CallsBase.mono (h : CallsBase external s t token signature)
    (hextends : t'.extends? = t.extends?)
    (htypes : ∀ base b, s.typeDef? base = some b → ∃ b', s'.typeDef? base = some b' ∧
      b'.parameterlessConstructor? = b.parameterlessConstructor?)
    (htypeRefs : s'.typeRefs = s.typeRefs) (hmemberRefs : s.memberRefs <+: s'.memberRefs) :
    CallsBase external s' t' token signature := by
  cases h with
  | defined hbase htable hb hc =>
    obtain ⟨b', hb', hsame⟩ := htypes _ _ hb
    exact .defined (hextends.trans hbase) htable hb' (hsame.trans hc)
  | referred hbase htable href hsignature hr =>
    refine .referred (hextends.trans hbase) htable ?_ hsignature ?_
    · rw [Section.typeRef?, htypeRefs]
      exact href
    · obtain ⟨refs, hrefs⟩ := hmemberRefs
      rw [← hrefs, List.find?_append, hr, Option.some_or]

/-- Two resolvers that offer the same constructors let the same constructors be called. -/
theorem CallsBase.of_offers {other : Resolver} (h : CallsBase external s t token signature)
    (hoffers : ∀ r, other.offers r = external.offers r) :
    CallsBase other s t token signature := by
  cases h with
  | defined hbase htable hb hc => exact .defined hbase htable hb hc
  | referred hbase htable href hsignature hr =>
    exact .referred hbase htable href ((hoffers _).trans hsignature) hr

end DualInit
