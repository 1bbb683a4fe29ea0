import DualInit.Proofs.Page.Settled
import Mathlib.Algebra.Order.BigOperators.Group.List
import Mathlib.Algebra.Order.Group.Nat

/-!
# When a class can be equipped

A pass over a resource can fail in two ways only: there is no constructor of the base type to call,
or there are no numbers left for the methods that the class lacks.  So where the section
`OffersBase` and has room for what is `missing`, the class that a resource selects is equipped, and
exactly the missing methods are added (`exists_ends_equipResource_selected`); a resource that
selects none is passed over (`exists_ends_equipResource_none`).

Both conditions are kept by the steps of a pass, so it comes to its end if they hold at its start
(`exists_resourceSteps`).  The room that has to be there at the start is what all types that are
going to be equipped are missing; each step uses up the part of the type that it equips.
-/

namespace DualInit

variable {external : Resolver} {s s' : Section} {t t' u : TypeDef} {type token : Token}
  {r : Resource} {m p q : MethodDef} {whole : MethodDef}

/-! ## Base constructors -/

/-- There is a constructor of the type's base type to call. -/
def Section.OffersBase (external : Resolver) (s : Section) (t : TypeDef) : Prop :=
  ∃ base, t.extends? = some base ∧
    ((base.table = Token.typeDefTable ∧
        ∃ b c, s.typeDef? base = some b ∧ b.parameterlessConstructor? = some c) ∨
      (base.table = Token.typeRefTable ∧
        ∃ reference signature, s.typeRef? base = some reference ∧
          external.offers reference = some signature))

namespace Section

/-- A constructor that can be called is offered, whatever references were added for it. -/
theorem offersBase_of_callsBase {refs : List MemberRef} {base : Token} {signature : Signature}
    (h : CallsBase external (s.withRefs refs) t base signature) : s.OffersBase external t := by
  cases h with
  | defined hbase htable hb hc => exact ⟨_, hbase, Or.inl ⟨htable, _, _, hb, hc⟩⟩
  | referred hbase htable href hsignature _ =>
    exact ⟨_, hbase, Or.inr ⟨htable, _, _, href, hsignature⟩⟩

/-- A base constructor is answered exactly if one is offered. -/
theorem exists_ends_baseConstructor (ht : s.typeDef? type = some t) :
    (∃ base s', (baseConstructor external type).Ends s (.ok base) s') ↔
      s.OffersBase external t := by
  constructor
  · rintro ⟨base, s', h⟩
    obtain ⟨t', refs, signature, ht', rfl, hcalls, -⟩ := callsBase_of_ends h
    obtain rfl := Option.some.inj (ht.symm.trans ht')
    exact offersBase_of_callsBase hcalls
  · rintro ⟨base, hbase, ⟨htable, b, c, hb, hc⟩ | ⟨htable, reference, signature, href, hoffers⟩⟩
    · exact ⟨c.token, s, ends_baseConstructor_iff.mpr (.defined ht hbase htable hb hc)⟩
    · obtain ⟨b, c, hresolve, hc, -⟩ := offers_eq_some.mp hoffers
      exact ⟨_, _, ends_baseConstructor_iff.mpr (.referred ht hbase htable href hresolve hc)⟩

/-- A base constructor is offered wherever the types have kept theirs and the references to types
are the same. -/
theorem OffersBase.mono (h : s.OffersBase external t) (hextends : t'.extends? = t.extends?)
    (htypes : ∀ base b, s.typeDef? base = some b → ∃ b', s'.typeDef? base = some b' ∧
      b'.parameterlessConstructor? = b.parameterlessConstructor?)
    (htypeRefs : s'.typeRefs = s.typeRefs) : s'.OffersBase external t' := by
  obtain ⟨base, hbase, ⟨htable, b, c, hb, hc⟩ | ⟨htable, reference, signature, href, hoffers⟩⟩ := h
  · obtain ⟨b', hb', hsame⟩ := htypes base b hb
    exact ⟨base, hextends.trans hbase, Or.inl ⟨htable, b', c, hb', hsame.trans hc⟩⟩
  · refine ⟨base, hextends.trans hbase, Or.inr ⟨htable, reference, signature, ?_, hoffers⟩⟩
    rw [typeRef?, htypeRefs]
    exact href

end Section

/-! ## What a type is missing -/

/-- How many methods equipping a type adds to it. -/
def TypeDef.missing (t : TypeDef) : Nat :=
  (if (t.initializer? runtimeName).isNone then 1 else 0) +
    if t.flagConstructor?.isNone then 1 else 0

/-- The initializers of a type that has any can be located, if there is room for the one that is
missing. -/
theorem exists_ends_locate (hs : s.TokensDistinct) (ht : s.typeDef? t.token = some t)
    (hwhole : t.initializer? precompiledName = some whole)
    (hroom : t.initializer? runtimeName = none → s.HasRoom 1) :
    ∃ initializers u, t.Halved s.nextMethodToken initializers u ∧
      (locate t.token).Ends s (.ok (some initializers)) (s.setType u) ∧
      initializers.placeholderCreated = (t.initializer? runtimeName).isNone := by
  cases hruntime : t.initializer? runtimeName with
  | some runtime =>
    refine ⟨_, t, .kept hwhole hruntime, ?_, rfl⟩
    rw [Section.setType_self hs ht]
    exact ends_locate_of_kept ht hwhole hruntime
  | none =>
    have hnone := Section.method?_nextMethodToken (hroom hruntime) ht
    have hsplit := (ends_splitInitializer hs ht (mem_of_initializer? hwhole)).mpr ⟨hnone, rfl, rfl⟩
    refine ⟨_, _, .split hwhole hruntime, ?_, rfl⟩
    rw [locate, Edit.ends_current_bind]
    simp only [ht, hwhole, hruntime, Edit.ends_map_ok]
    exact ⟨_, hsplit, rfl⟩

/-- The flag constructor of a type can be ensured, if there is a constructor of the base type to call
and room for a flag constructor that is missing. -/
theorem exists_ends_ensureFlagConstructor (created : Bool) (hs : s.TokensDistinct)
    (ht : s.typeDef? t.token = some t) (hbase : s.OffersBase external t) (hp : p ∈ t.methods)
    (hppops : p.signature.callPops < 256) (hq : q ∈ t.methods)
    (hqpops : q.signature.callPops < 256)
    (hroom : t.flagConstructor? = none → s.HasRoom 1) :
    ∃ constructor s', (ensureFlagConstructor external t.token ⟨p.token, q.token, created⟩).Ends s
        (.ok constructor) s' ∧ constructor.created = t.flagConstructor?.isNone := by
  obtain ⟨base, left, hends⟩ := (Section.exists_ends_baseConstructor ht).mpr hbase
  obtain ⟨_, refs, _, _, rfl, -⟩ := callsBase_of_ends hends
  have hdistinct := hs.of_mem (Section.mem_of_typeDef? ht)
  have hs' : (s.withRefs refs).TokensDistinct := tokensDistinct_withRefs hs
  have ht' : (s.withRefs refs).typeDef? t.token = some t := ht
  have hpsite : callSite (s.withRefs refs) t.token p.token = .ok p.callSite :=
    callSite_ok.mpr ⟨t, p, ht', TypeDef.method?_of_mem hdistinct hp, hppops, rfl⟩
  have hqsite : callSite (s.withRefs refs) t.token q.token = .ok q.callSite :=
    callSite_ok.mpr ⟨t, q, ht', TypeDef.method?_of_mem hdistinct hq, hqpops, rfl⟩
  rw [ensureFlagConstructor]
  simp only [hends.bind_iff, Edit.ends_current_bind, hpsite, hqsite, dualDispatchBody_eq, ht']
  simp only [(Edit.ends_ofExcept.mpr ⟨rfl, rfl⟩).bind_iff]
  cases hc : t.flagConstructor? with
  | some c =>
    exact ⟨_, _, (ends_replaceBody hs' ht' (List.mem_of_find?_eq_some hc)).mpr ⟨rfl, rfl⟩, rfl⟩
  | none =>
    have hnone : t.method? (s.withRefs refs).nextMethodToken = none :=
      Section.method?_nextMethodToken (hroom hc) ht
    exact ⟨_, _, (ends_addFlagConstructor hs' ht').mpr ⟨hnone, rfl, rfl⟩, rfl⟩

/-! ## Resources that select a type -/

/-- The type that a resource selects: the one of its class, if it has an initializer. -/
def Section.selected? (s : Section) (r : Resource) : Option TypeDef :=
  ((classify r).bind s.findType).filter fun t => (t.initializer? precompiledName).isSome

theorem Section.selected?_eq_some : s.selected? r = some t ↔
    ∃ className whole, classify r = some className ∧ s.findType className = some t ∧
      t.initializer? precompiledName = some whole := by
  rw [selected?, Option.filter_eq_some_iff, Option.bind_eq_some_iff]
  constructor
  · rintro ⟨⟨className, hclass, hfind⟩, hsome⟩
    obtain ⟨whole, hwhole⟩ := Option.isSome_iff_exists.mp hsome
    exact ⟨className, whole, hclass, hfind, hwhole⟩
  · rintro ⟨className, whole, hclass, hfind, hwhole⟩
    exact ⟨⟨className, hclass, hfind⟩, Option.isSome_iff_exists.mpr ⟨whole, hwhole⟩⟩

theorem Section.mem_of_selected? (h : s.selected? r = some t) : t ∈ s.types := by
  obtain ⟨className, whole, -, hfind, -⟩ := selected?_eq_some.mp h
  exact mem_of_findType hfind

/-- Halving a type keeps on offer what its base type offers. -/
theorem Section.OffersBase.setType_halved {fresh : Token} {initializers : Initializers}
    (h : s.OffersBase external t) (hs : s.TokensDistinct) (ht : s.typeDef? t.token = some t)
    (hhalved : t.Halved fresh initializers u) : (s.setType u).OffersBase external u := by
  have hextends : u.shell.extends? = t.shell.extends? := by rw [hhalved.shell]
  refine h.mono hextends (fun base b hb => ?_) rfl
  by_cases htoken : t.token = base
  · subst htoken
    obtain rfl := Option.some.inj (ht.symm.trans hb)
    exact ⟨u, Section.typeDef?_setType_self hb hhalved.token,
      hhalved.parameterlessConstructor? (hs.of_mem (Section.mem_of_typeDef? hb))⟩
  · exact ⟨b, (Section.typeDef?_setType_of_ne (hhalved.token.trans_ne htoken)).trans hb, rfl⟩

/-- The class that a resource selects is equipped, and what it is missing is added. -/
theorem exists_ends_equipResource_selected (hs : s.TokensDistinct) (h : s.selected? r = some t)
    (hbase : s.OffersBase external t) (hroom : s.HasRoom t.missing) :
    ∃ e s', (equipResource external r).Ends s (.ok (.equipped e)) s' ∧
      (Finding.equipped e).additions = t.missing := by
  obtain ⟨className, whole, hclass, hfind, hwhole⟩ := Section.selected?_eq_some.mp h
  have ht := Section.typeDef?_of_findType hs hfind
  have hdistinct := hs.of_mem (Section.mem_of_typeDef? ht)
  have hdescribed : (describedClass r).Ends s (.ok (some className)) s :=
    ends_describedClass.mpr ⟨hclass.symm, rfl⟩
  have htarget : (findTarget className).Ends s (.ok (some t.token)) s :=
    ends_findTarget.mpr ⟨by rw [hfind]; rfl, rfl⟩
  -- both initializers are there
  have hroom₁ : t.initializer? runtimeName = none → s.HasRoom 1 := fun hnone => by
    rw [TypeDef.missing, hnone] at hroom
    exact hroom.mono (Nat.le_add_right _ _)
  obtain ⟨⟨precompiled, runtime, created⟩, u, hhalved, hlocate, hcreated⟩ :=
    exists_ends_locate hs ht hwhole hroom₁
  obtain rfl : created = (t.initializer? runtimeName).isNone := hcreated
  have hfound : s.typeDef? u.token = some t := by rw [hhalved.token, ht]
  have hs' : (s.setType u).TokensDistinct :=
    hs.setType_newTokens hfound hhalved.tokens fun hnone =>
      hroom₁ (Option.isNone_iff_eq_none.mp hnone)
  have hu : (s.setType u).typeDef? u.token = some u := Section.typeDef?_setType_self hfound rfl
  obtain ⟨p, hp, hptoken, hpinit⟩ := hhalved.exists_precompiled
  obtain ⟨q, hq, hqtoken⟩ := hhalved.initializer?_runtime
  obtain rfl : p.token = precompiled := hptoken
  obtain rfl : q.token = runtime := hqtoken
  -- and so is the flag constructor
  have hflag : u.flagConstructor? = t.flagConstructor? := hhalved.flagConstructor? hdistinct
  have hroom₂ : u.flagConstructor? = none → (s.setType u).HasRoom 1 := fun hnone => by
    rw [hflag] at hnone
    rw [TypeDef.missing, hnone] at hroom
    exact Section.HasRoom.setType hs hfound hhalved.tokens hroom
  obtain ⟨constructor, s', hensure, hnew⟩ := exists_ends_ensureFlagConstructor
    (t.initializer? runtimeName).isNone hs' hu
    (hbase.setType_halved hs ht hhalved) hp
    (Nat.lt_of_le_of_lt (callPops_of_isInitializer hpinit) (by decide)) (mem_of_initializer? hq)
    (Nat.lt_of_le_of_lt (callPops_of_initializer? hq) (by decide)) hroom₂
  rw [hhalved.token] at hensure
  rw [hflag] at hnew
  have hequip : ∃ e : EquippedType, (equipType external className t.token
        ⟨p.token, q.token, (t.initializer? runtimeName).isNone⟩).Ends (s.setType u)
        (.ok (.equipped e)) s' ∧ e.placeholderCreated = (t.initializer? runtimeName).isNone ∧
      e.constructorCreated = constructor.created := by
    simp only [equipType, hensure.bind_iff, Edit.ends_current_bind, Edit.ends_tell_bind,
      Edit.ends_pure]
    exact ⟨_, ⟨rfl, trivial⟩, rfl, rfl⟩
  obtain ⟨e, hends, hplaceholder, hconstructor⟩ := hequip
  refine ⟨e, s', ?_, ?_⟩
  · rw [equipResource, Edit.ends_current_bind]
    simp only [hdescribed.bind_iff, Edit.ends_tell_bind, htarget.bind_iff, hlocate.bind_iff]
    exact hends
  · rw [Finding.additions, TypeDef.missing, hplaceholder, hconstructor, hnew]

/-- A resource that selects no class is passed over. -/
theorem exists_ends_equipResource_none (hs : s.TokensDistinct) (hroom : s.HasRoom 0)
    (h : s.selected? r = none) (external : Resolver) :
    ∃ skip, (equipResource external r).Ends s (.ok (.skipped skip)) s := by
  have hsettled : ∃ skip, Settled external s r (.skipped skip) := by
    cases hclass : classify r with
    | none => exact ⟨_, .notXaml hclass⟩
    | some className =>
      cases hfind : s.findType className with
      | none => exact ⟨_, .typeNotFound hclass hfind⟩
      | some t =>
        cases hwhole : t.initializer? precompiledName with
        | none => exact ⟨_, .noInitializer hclass hfind hwhole⟩
        | some whole =>
          have hselected := Section.selected?_eq_some.mpr ⟨_, _, hclass, hfind, hwhole⟩
          rw [h] at hselected
          cases hselected
  obtain ⟨skip, hskip⟩ := hsettled
  obtain ⟨s', hends, -⟩ := hskip.ends hs
  obtain rfl : s' = s := by
    have hstep : ResourceStep external s r (.skipped skip) s' := resourceStep_of_ends hs hroom hends
    cases hstep <;> rfl
  exact ⟨skip, hends⟩

/-- A resource that is passed over selects no type. -/
theorem ResourceStep.selected?_eq_none {skip : Skip}
    (h : ResourceStep external s r (.skipped skip) s') : s.selected? r = none ∧ s' = s := by
  cases h with
  | notXaml hclass =>
    rw [Section.selected?, hclass]
    exact ⟨rfl, rfl⟩
  | typeNotFound hclass hfind =>
    rw [Section.selected?, hclass, Option.bind_some, hfind]
    exact ⟨rfl, rfl⟩
  | noInitializer hclass hfind hnone =>
    rw [Section.selected?, hclass, Option.bind_some, hfind, Option.filter_some, hnone]
    exact ⟨rfl, rfl⟩

/-- A resource whose class is equipped selects the type that is. -/
theorem ResourceStep.exists_equipping {e : EquippedType}
    (h : ResourceStep external s r (.equipped e) s') :
    ∃ q : Equipping external s, s.selected? r = some q.before ∧ s' = q.result := by
  cases h with
  | equipped q hclass hfind =>
    obtain ⟨whole, hwhole⟩ := Option.isSome_iff_exists.mp q.halved.isSome_initializer?
    exact ⟨q, Section.selected?_eq_some.mpr ⟨_, whole, hclass, hfind, hwhole⟩, rfl⟩

/-! ## What is selected after a step -/

variable {resources : List Resource}

/-- How many resources select the type of a token. -/
def Section.visits (s : Section) (resources : List Resource) (token : Token) : Nat :=
  resources.countP fun r => (s.selected? r).map (·.token) == some token

theorem Section.visits_cons (s : Section) (r : Resource) (resources : List Resource)
    (token : Token) : s.visits (r :: resources) token =
      s.visits resources token + if (s.selected? r).map (·.token) = some token then 1 else 0 := by
  rw [visits, List.countP_cons]
  simp only [beq_iff_eq]
  rfl

theorem Section.visits_cons_some (h : s.selected? r = some t) (token : Token) :
    s.visits (r :: resources) token =
      s.visits resources token + if t.token = token then 1 else 0 := by
  rw [visits_cons, h, Option.map_some]
  simp only [Option.some.injEq]

theorem Section.visits_cons_none (h : s.selected? r = none) (token : Token) :
    s.visits (r :: resources) token = s.visits resources token := by
  rw [visits_cons, h]
  rfl

/-- How many methods are added to the types that resources select. -/
def Section.missing (s : Section) (resources : List Resource) : Nat :=
  (s.types.map fun t => if 0 < s.visits resources t.token then t.missing else 0).sum

/-- A type that a resource selects is visited, and so only these are. -/
theorem Section.visits_pos_iff {token : Token} : 0 < s.visits resources token ↔
    ∃ r ∈ resources, ∃ t, s.selected? r = some t ∧ t.token = token := by
  rw [visits, List.countP_pos_iff]
  simp only [beq_iff_eq, Option.map_eq_some_iff]

/-- What a selected type is missing is among what all of them are. -/
theorem Section.missing_le (h : s.selected? r = some t) (hr : r ∈ resources) :
    t.missing ≤ s.missing resources := by
  have hvisits : 0 < s.visits resources t.token := visits_pos_iff.mpr ⟨r, hr, t, h, rfl⟩
  refine List.le_sum_of_mem ?_
  refine List.mem_map.mpr ⟨t, mem_of_selected? h, ?_⟩
  rw [if_pos hvisits]

theorem Section.missing_cons_none (h : s.selected? r = none) :
    s.missing (r :: resources) = s.missing resources := by
  unfold missing
  simp only [visits_cons_none h]

namespace Equipping

variable (e : Equipping external s)

/-- An equipped type has an initializer of each name and a flag constructor. -/
theorem missing_after : e.after.missing = 0 := by
  obtain ⟨q, hq, -⟩ := e.halved.initializer?_runtime
  obtain ⟨c, hc, -⟩ := e.fitted.flagConstructor? e.halves_distinct
  have hruntime : e.after.initializer? runtimeName = some q :=
    (e.fitted.initializer? e.halves_distinct _).trans hq
  rw [TypeDef.missing, hruntime, hc]
  rfl

theorem isSome_initializer?_after : (e.after.initializer? precompiledName).isSome = true := by
  obtain ⟨p, hp, -, hinit⟩ := e.halved.exists_precompiled
  rw [e.fitted.initializer? e.halves_distinct]
  exact List.find?_isSome.mpr ⟨p, hp, hinit⟩

/-- A type in its place is a type of the same shell, and one that was not equipped is as it was. -/
theorem typeDef?_result (ht : s.typeDef? token = some t) :
    ∃ u, e.result.typeDef? token = some u ∧ u.shell = t.shell ∧
      (t = e.before ∧ u = e.after ∨ t.token ≠ e.before.token ∧ u = t) := by
  by_cases htoken : e.before.token = token
  · subst htoken
    obtain rfl := Option.some.inj (e.before_found.symm.trans ht)
    exact ⟨_, e.typeDef?_result_self, e.shell_after, Or.inl ⟨rfl, rfl⟩⟩
  · refine ⟨t, (e.typeDef?_result_of_ne htoken).trans ht, rfl, Or.inr ⟨?_, rfl⟩⟩
    rw [Section.token_of_typeDef? ht]
    exact fun heq => htoken heq.symm

/-- Resources select after a step the types that they selected before it. -/
theorem selected?_result (hs : s.TokensDistinct) (hs' : e.result.TokensDistinct) (r : Resource) :
    (e.result.selected? r).map TypeDef.shell = (s.selected? r).map TypeDef.shell := by
  unfold Section.selected?
  cases classify r with
  | none => rfl
  | some className =>
    rw [Option.bind_some, Option.bind_some]
    cases hfind : s.findType className with
    | none => rw [(e.frame hs).findType_eq_none hfind]
    | some t =>
      obtain ⟨u, hu, htoken⟩ := (e.frame hs).exists_findType hfind
      have ht := Section.typeDef?_of_findType hs hfind
      have hu' := Section.typeDef?_of_findType hs' hu
      obtain ⟨u', hfound, hshell, hcases⟩ := e.typeDef?_result ht
      rw [htoken, hfound] at hu'
      obtain rfl := Option.some.inj hu'
      have hsame : (u'.initializer? precompiledName).isSome =
          (t.initializer? precompiledName).isSome := by
        rcases hcases with ⟨rfl, rfl⟩ | ⟨-, rfl⟩
        · rw [e.isSome_initializer?_after, e.halved.isSome_initializer?]
        · rfl
      rw [hu, Option.filter_some, Option.filter_some, hsame]
      split
      · exact congrArg some hshell
      · rfl

theorem visits_result (hs : s.TokensDistinct) (hs' : e.result.TokensDistinct)
    (resources : List Resource) (token : Token) :
    e.result.visits resources token = s.visits resources token := by
  have htoken : ∀ r, (e.result.selected? r).map (·.token) = (s.selected? r).map (·.token) := by
    intro r
    have hshell := congrArg (Option.map TypeDef.token) (e.selected?_result hs hs' r)
    rwa [Option.map_map, Option.map_map] at hshell
  unfold Section.visits
  simp only [htoken]

/-- A step uses up what its type was missing. -/
theorem missing_result (hs : s.TokensDistinct) (hs' : e.result.TokensDistinct)
    (h : s.selected? r = some e.before) :
    e.result.missing resources + e.before.missing = s.missing (r :: resources) := by
  have hafter : s.typeDef? e.after.token = some e.before := by
    rw [e.token_after]
    exact e.before_found
  have hvisits : ∀ token, s.visits (r :: resources) token = _ := Section.visits_cons_some h
  have hsum := Rows.sum_map_set
    (f := fun t : TypeDef => if 0 < s.visits (r :: resources) t.token then t.missing else 0)
    (g := fun t : TypeDef => if 0 < s.visits resources t.token then t.missing else 0)
    hs.types hafter fun t _ hne => by
      have hne' : e.before.token ≠ t.token := by
        rw [← e.token_after]
        exact fun heq => hne heq.symm
      rw [hvisits, if_neg hne', Nat.add_zero]
  have hbefore : 0 < s.visits (r :: resources) e.before.token := by
    rw [hvisits, if_pos rfl]
    exact Nat.succ_pos _
  rw [if_pos hbefore, e.missing_after, ite_self, Nat.add_zero] at hsum
  rw [Section.missing, Section.missing, e.types_result, Section.setType, ← hsum]
  simp only [e.visits_result hs hs']

end Equipping

/-! ## A whole pass -/

theorem ResourceSteps.ends {findings : List Finding}
    (h : ResourceSteps external s resources findings s') :
    (equipResources external resources).Ends s (.ok findings) s' := by
  induction h with
  | nil s => exact Edit.ends_pure.mpr ⟨rfl, rfl⟩
  | cons _ hends _ _ _ ih => exact ends_equipResources_cons.mpr ⟨_, _, _, hends, ih, rfl⟩

/-- Where all base constructors are offered and there is room for all that is missing, a pass comes
to its end. -/
theorem exists_resourceSteps (hs : s.TokensDistinct) (hroom : s.HasRoom (s.missing resources))
    (hbase : ∀ r ∈ resources, ∀ t, s.selected? r = some t → s.OffersBase external t) :
    ∃ findings s', ResourceSteps external s resources findings s' := by
  induction resources generalizing s with
  | nil => exact ⟨[], s, .nil s⟩
  | cons r rest ih =>
    cases hselected : s.selected? r with
    | none =>
      obtain ⟨skip, hends⟩ :=
        exists_ends_equipResource_none hs (hroom.mono (Nat.zero_le _)) hselected external
      have hroom' : s.HasRoom (Finding.skipped skip).additions := hroom.mono (Nat.zero_le _)
      rw [Section.missing_cons_none hselected] at hroom
      obtain ⟨findings, s', hsteps⟩ := ih hs hroom fun r' hr' => hbase r' (List.mem_cons_of_mem _ hr')
      exact ⟨_, s', .cons hs hends (resourceStep_of_ends hs hroom' hends) hs hsteps⟩
    | some t =>
      have htroom : s.HasRoom t.missing :=
        hroom.mono (Section.missing_le hselected List.mem_cons_self)
      obtain ⟨e, s', hends, hadditions⟩ := exists_ends_equipResource_selected hs hselected
        (hbase r List.mem_cons_self t hselected) htroom
      have hroom' : s.HasRoom (Finding.equipped e).additions := hadditions ▸ htroom
      have hstep := resourceStep_of_ends hs hroom' hends
      have hs' := hstep.tokensDistinct hs hroom'
      obtain ⟨q, hbefore, rfl⟩ := hstep.exists_equipping
      obtain rfl := Option.some.inj (hselected.symm.trans hbefore)
      -- the rest of the room and the base constructors are there for the other resources
      have hleft : q.result.HasRoom (q.result.missing rest) := by
        refine hstep.hasRoom hs ?_
        rw [hadditions, Nat.add_comm, q.missing_result hs hs' hselected]
        exact hroom
      have hbase' : ∀ r' ∈ rest, ∀ t', q.result.selected? r' = some t' →
          q.result.OffersBase external t' := by
        intro r' hr' t' hselected'
        have hshell := q.selected?_result hs hs' r'
        rw [hselected', Option.map_some] at hshell
        obtain ⟨t, ht, hsame⟩ := Option.map_eq_some_iff.mp hshell.symm
        refine (hbase r' (List.mem_cons_of_mem _ hr') t ht).mono ?_ ?_ q.typeRefs_result
        · exact (congrArg TypeDef.extends? hsame).symm
        · exact fun _ _ => q.exists_typeDef?_result hs
      obtain ⟨findings, s'', hsteps⟩ := ih hs' hleft hbase'
      exact ⟨_, s'', .cons hs hends hstep hs' hsteps⟩

end DualInit
