import DualInit.Proofs.Page.Frame

/-!
# Nothing left to do

Once a class is equipped, its flag constructor calls a constructor of the base type and then one
of the first initializers; `TypeDef.Serves` says so.  `Settled` says of a resource and its finding
that the section is as a pass would leave it:

* a step leaves its own resource settled (`ResourceStep.settled`);
* later steps keep it so, whether they equip another class or the same one (`Settled.step`);
* a pass over what is settled finds the same and changes nothing but symbols
  (`ends_equipResources_of_settled`).

So in what a pass leaves every resource is settled (`ResourceSteps.settled`).
-/

namespace DualInit

/-- The flag constructor of a type dispatches between the type's first initializers. -/
structure TypeDef.Serves (external : Resolver) (s : Section) (t : TypeDef) (p r c : MethodDef)
    (base : Token) (signature : Signature) : Prop where
  found : s.typeDef? t.token = some t
  precompiled_found : t.initializer? precompiledName = some p
  runtime_found : t.initializer? runtimeName = some r
  constructor_found : t.flagConstructor? = some c
  calls_base : CallsBase external s t base signature
  body_eq : c.body = some (dispatchBody base p r)

/-- A pass has nothing left to do for a resource for which it has found this. -/
inductive Settled (external : Resolver) (s : Section) (r : Resource) : Finding → Prop where
  | notXaml (hclass : classify r = none) :
      Settled external s r (.skipped ⟨s.name, r.name, none, .notXaml⟩)
  | typeNotFound {className : String} (hclass : classify r = some className)
      (hfind : s.findType className = none) :
      Settled external s r (.skipped ⟨s.name, r.name, some className, .typeNotFound⟩)
  | noInitializer {className : String} {t : TypeDef} (hclass : classify r = some className)
      (hfind : s.findType className = some t) (hnone : t.initializer? precompiledName = none) :
      Settled external s r (.skipped ⟨s.name, r.name, some className, .noInitializer⟩)
  | equipped {className : String} {t : TypeDef} {p q c : MethodDef} {base : Token}
      {signature : Signature} (placeholderCreated constructorCreated : Bool)
      (hclass : classify r = some className) (hfind : s.findType className = some t)
      (hserves : t.Serves external s p q c base signature) :
      Settled external s r (.equipped ⟨s.name, (s.typeName t.token).getD className, p.token,
        q.token, c.token, placeholderCreated, constructorCreated⟩)

/-- The finding of a pass that finds everything in place. -/
def Finding.again : Finding → Finding
  | .skipped s => .skipped s
  | .equipped e => .equipped { e with placeholderCreated := false, constructorCreated := false }

variable {external other : Resolver} {s s' : Section} {r r' : Resource} {t u : TypeDef}
  {p q c : MethodDef} {base token : Token} {signature : Signature} {finding finding' : Finding}

/-! ## Serving types -/

/-- An initializer takes nothing but the object. -/
theorem callPops_of_isInitializer {name : String} (h : p.isInitializer name = true) :
    p.signature.callPops ≤ 1 := by
  have hparams := (MethodDef.isInitializer_iff.mp h).2
  rw [MethodDef.isParameterless, Signature.isParameterless, List.isEmpty_iff] at hparams
  rw [Signature.callPops, hparams, List.length_nil, Nat.zero_add]
  split <;> decide

theorem callPops_of_initializer? {name : String} (h : t.initializer? name = some p) :
    p.signature.callPops ≤ 1 :=
  callPops_of_isInitializer (isInitializer_of_initializer? h)

/-- A type serves in every section that has it and what its base constructor needs. -/
theorem TypeDef.Serves.mono (h : t.Serves external s p q c base signature)
    (hfound : s'.typeDef? t.token = some t)
    (htypes : ∀ token b, s.typeDef? token = some b → ∃ b', s'.typeDef? token = some b' ∧
      b'.parameterlessConstructor? = b.parameterlessConstructor?)
    (htypeRefs : s'.typeRefs = s.typeRefs) (hmemberRefs : s.memberRefs <+: s'.memberRefs) :
    t.Serves external s' p q c base signature where
  found := hfound
  precompiled_found := h.precompiled_found
  runtime_found := h.runtime_found
  constructor_found := h.constructor_found
  calls_base := h.calls_base.mono rfl htypes htypeRefs hmemberRefs
  body_eq := h.body_eq

/-! ## Symbols do not matter -/

/-- What is settled stays so when symbols change, and with any resolver that offers the same
constructors. -/
theorem Settled.congr (h : Settled external s r finding)
    (hsymbols : s'.withoutSymbols = s.withoutSymbols)
    (hoffers : ∀ r, other.offers r = external.offers r) : Settled other s' r finding := by
  obtain ⟨symbols, rfl⟩ := Section.exists_symbols hsymbols
  have htypes : ({ s with symbols } : Section).types = s.types := rfl
  have hfindType := Section.findType_of_types htypes
  cases h with
  | notXaml hclass => exact .notXaml hclass
  | typeNotFound hclass hfind => exact .typeNotFound hclass ((hfindType _).trans hfind)
  | noInitializer hclass hfind hnone =>
    exact .noInitializer hclass ((hfindType _).trans hfind) hnone
  | @equipped _ t _ _ _ _ _ _ _ hclass hfind hserves =>
    have houtline : ({ s with symbols } : Section).outline = s.outline := rfl
    have hserves' : t.Serves external { s with symbols } _ _ _ _ _ :=
      hserves.mono hserves.found (fun _ b hb => ⟨b, hb, rfl⟩) rfl (List.prefix_refl _)
    rw [← Section.typeName_congr houtline]
    exact .equipped _ _ hclass ((hfindType _).trans hfind)
      { hserves' with calls_base := hserves'.calls_base.of_offers hoffers }

/-! ## A pass over what is settled -/

namespace TypeDef.Serves

variable (h : t.Serves external s p q c base signature)

include h

/-- Equipping a type that serves changes nothing but symbols. -/
theorem ends_equipType (hs : s.TokensDistinct) (className : String) :
    (equipType external className t.token ⟨p.token, q.token, false⟩).Ends s
      (.ok (.equipped ⟨s.name, (s.typeName t.token).getD className, p.token, q.token, c.token,
        false, false⟩)) (s.hideSymbols c.token) := by
  have hensure : (ensureFlagConstructor external t.token ⟨p.token, q.token, false⟩).Ends s
      (.ok ⟨c.token, false⟩) (s.hideSymbols c.token) :=
    ends_ensureFlagConstructor hs h.found h.calls_base (mem_of_initializer? h.precompiled_found)
      (Nat.lt_of_le_of_lt (callPops_of_initializer? h.precompiled_found) (by decide))
      (mem_of_initializer? h.runtime_found)
      (Nat.lt_of_le_of_lt (callPops_of_initializer? h.runtime_found) (by decide))
      h.constructor_found h.body_eq
  have houtline : (s.hideSymbols c.token).outline = s.outline := rfl
  rw [equipType, hensure.bind_iff, Edit.ends_current_bind, Edit.ends_tell_bind, Edit.ends_pure,
    Section.typeName_congr houtline]
  exact ⟨rfl, rfl⟩

end TypeDef.Serves

/-- A pass over a resource that is settled finds the same and changes nothing but symbols. -/
theorem Settled.ends (h : Settled external s r finding) (hs : s.TokensDistinct) :
    ∃ s', (equipResource external r).Ends s (.ok finding.again) s' ∧
      s'.withoutSymbols = s.withoutSymbols := by
  have hdescribed : (describedClass r).Ends s (.ok (classify r)) s :=
    ends_describedClass.mpr ⟨rfl, rfl⟩
  have htarget (className : String) :
      (findTarget className).Ends s (.ok ((s.findType className).map (·.token))) s :=
    ends_findTarget.mpr ⟨rfl, rfl⟩
  unfold equipResource
  simp only [Edit.ends_current_bind, hdescribed.bind_iff]
  cases h with
  | notXaml hclass =>
    refine ⟨s, ?_, rfl⟩
    rw [hclass, Edit.ends_tell_bind]
    exact Edit.ends_pure.mpr ⟨rfl, rfl⟩
  | typeNotFound hclass hfind =>
    refine ⟨s, ?_, rfl⟩
    simp only [hclass, Edit.ends_tell_bind, (htarget _).bind_iff, hfind]
    exact Edit.ends_pure.mpr ⟨rfl, rfl⟩
  | @noInitializer _ t hclass hfind hnone =>
    have ht := Section.typeDef?_of_findType hs hfind
    have hlocate := ends_locate_none.mpr ⟨t, ht, hnone, rfl⟩
    refine ⟨s, ?_, rfl⟩
    simp only [hclass, Edit.ends_tell_bind, (htarget _).bind_iff, hfind, Option.map_some,
      hlocate.bind_iff]
    exact Edit.ends_pure.mpr ⟨rfl, rfl⟩
  | @equipped className t p q c _ _ _ _ hclass hfind hserves =>
    have hlocate := ends_locate_of_kept hserves.found hserves.precompiled_found
      hserves.runtime_found
    refine ⟨s.hideSymbols c.token, ?_, rfl⟩
    simp only [hclass, Edit.ends_tell_bind, (htarget _).bind_iff, hfind, Option.map_some,
      hlocate.bind_iff]
    exact hserves.ends_equipType hs className

/-! ## What a step leaves -/

namespace Equipping

variable (e : Equipping external s)

/-- A type that is found has kept its parameterless constructor. -/
theorem exists_typeDef?_result {b : TypeDef} (hs : s.TokensDistinct)
    (hb : s.typeDef? token = some b) : ∃ b', e.result.typeDef? token = some b' ∧
      b'.parameterlessConstructor? = b.parameterlessConstructor? := by
  by_cases htoken : e.before.token = token
  · subst htoken
    obtain rfl := Option.some.inj (e.before_found.symm.trans hb)
    have hdistinct := hs.of_mem e.before_mem
    exact ⟨e.after, e.typeDef?_result_self,
      (e.refitted "").parameterlessConstructor? hdistinct⟩
  · exact ⟨b, (e.typeDef?_result_of_ne htoken).trans hb, rfl⟩

/-- Equipping one type leaves the others serving. -/
theorem serves_of_ne (hs : s.TokensDistinct) (h : t.Serves external s p q c base signature)
    (hne : e.before.token ≠ t.token) : t.Serves external e.result p q c base signature := by
  refine h.mono ((e.typeDef?_result_of_ne hne).trans h.found)
    (fun _ _ => e.exists_typeDef?_result hs) e.typeRefs_result ?_
  rw [e.memberRefs_result]
  exact List.prefix_append _ _

/-- A type with the token of the type that is equipped is that type. -/
theorem before_eq {fullName : String} (hs : s.TokensDistinct)
    (h : s.findType fullName = some t) (htoken : e.before.token = t.token) : e.before = t := by
  have hfound := Section.typeDef?_of_findType hs h
  rw [← htoken, e.before_found] at hfound
  exact Option.some.inj hfound

/-- A type without an initializer is not the one that is equipped. -/
theorem token_before_ne {fullName : String} (hs : s.TokensDistinct)
    (h : s.findType fullName = some t) (hnone : t.initializer? precompiledName = none) :
    e.before.token ≠ t.token := by
  intro htoken
  have hsome := e.halved.initializer?_ne_none
  rw [e.before_eq hs h htoken] at hsome
  exact hsome hnone

/-- An equipped type stands under the name it had. -/
theorem findType_result_self {fullName : String} (hs : s.TokensDistinct)
    (hs' : e.result.TokensDistinct) (h : s.findType fullName = some e.before) :
    e.result.findType fullName = some e.after := by
  obtain ⟨u, hu, htoken⟩ := (e.frame hs).exists_findType h
  have hfound := Section.typeDef?_of_findType hs' hu
  rw [htoken, e.typeDef?_result_self] at hfound
  rw [hu, Option.some.inj hfound]

/-- Equipping one type leaves the others under their names. -/
theorem findType_result_of_ne {fullName : String} (hs : s.TokensDistinct)
    (hs' : e.result.TokensDistinct) (h : s.findType fullName = some t)
    (hne : e.before.token ≠ t.token) : e.result.findType fullName = some t := by
  obtain ⟨u, hu, htoken⟩ := (e.frame hs).exists_findType h
  have hfound := Section.typeDef?_of_findType hs' hu
  rw [htoken, e.typeDef?_result_of_ne hne,
    Section.typeDef?_of_findType hs h] at hfound
  rw [hu, Option.some.inj hfound]

theorem halves_distinct : (e.halves.methods.map (·.token)).Nodup :=
  e.tokensDistinct.of_mem (Section.mem_of_typeDef? e.halves_found)

/-- The constructor of the base type can be called in the section that is left. -/
theorem calls_base_result : CallsBase external e.result e.after e.base e.baseSignature := by
  have hextends : e.after.shell.extends? = e.halves.shell.extends? := by rw [e.fitted.shell]
  have hrefs : s.memberRefs ++ e.refs <+: e.result.memberRefs :=
    ⟨[], by rw [e.memberRefs_result, List.append_nil]⟩
  refine e.base_called.mono hextends ?_ e.typeRefs_result hrefs
  intro token b hb
  by_cases htoken : e.before.token = token
  · subst htoken
    obtain rfl := Option.some.inj (e.halves_found.symm.trans hb)
    exact ⟨e.after, e.typeDef?_result_self,
      e.fitted.parameterlessConstructor? e.halves_distinct⟩
  · have hb' : s.typeDef? token = some b := by
      rw [← hb]
      exact (Section.typeDef?_setType_of_ne (e.token_halves.trans_ne htoken)).symm
    exact ⟨b, (e.typeDef?_result_of_ne htoken).trans hb', rfl⟩

/-- An equipped type serves, if it had one initializer to begin with. -/
theorem serves (hone : e.before.HasOneInitializer) : ∃ c, c.token = e.constructor.token ∧
    e.after.Serves external e.result e.precompiled e.runtime c e.base e.baseSignature := by
  have hdistinct := e.halves_distinct
  obtain ⟨p, hp, hptoken⟩ := e.halved.initializer?_precompiled hone
  obtain ⟨q, hq, hqtoken⟩ := e.halved.initializer?_runtime
  obtain ⟨c, hc, hctoken, hbody⟩ := e.fitted.flagConstructor? hdistinct
  obtain rfl := TypeDef.eq_of_mem_of_token hdistinct (mem_of_initializer? hp) e.precompiled_mem
    hptoken
  obtain rfl := TypeDef.eq_of_mem_of_token hdistinct (mem_of_initializer? hq) e.runtime_mem
    hqtoken
  exact ⟨c, hctoken,
    { found := by rw [e.token_after]; exact e.typeDef?_result_self
      precompiled_found := (e.fitted.initializer? hdistinct _).trans hp
      runtime_found := (e.fitted.initializer? hdistinct _).trans hq
      constructor_found := hc
      calls_base := e.calls_base_result
      body_eq := hbody }⟩

theorem hasOneInitializer_after (hone : e.before.HasOneInitializer) :
    e.after.HasOneInitializer :=
  e.fitted.hasOneInitializer e.halves_distinct (e.halved.hasOneInitializer hone)

end Equipping

/-- A step leaves its own resource settled. -/
theorem ResourceStep.settled (hs : s.TokensDistinct) (hs' : s'.TokensDistinct)
    (hone : ∀ t ∈ s.types, t.HasOneInitializer) (h : ResourceStep external s r finding s') :
    Settled external s' r finding := by
  cases h with
  | notXaml hclass => exact .notXaml hclass
  | typeNotFound hclass hfind => exact .typeNotFound hclass hfind
  | noInitializer hclass hfind hnone => exact .noInitializer hclass hfind hnone
  | @equipped className e hclass hfind =>
    obtain ⟨c, hc, hserves⟩ := e.serves (hone _ e.before_mem)
    have hsettled := Settled.equipped e.placeholderCreated e.constructor.created hclass
      (e.findType_result_self hs hs' hfind) hserves
    rw [e.name_result, Section.typeName_congr (e.frame hs).outline, hc, e.token_after] at hsettled
    exact hsettled

/-- What is settled stays so in later steps. -/
theorem Settled.step (h : Settled external s r finding) (hs : s.TokensDistinct)
    (hs' : s'.TokensDistinct) (hends : (equipResource external r').Ends s (.ok finding') s')
    (hstep : ResourceStep external s r' finding' s') : Settled external s' r finding := by
  cases hstep with
  | notXaml | typeNotFound | noInitializer => exact h
  | @equipped className' e hclass' hfind' =>
    have hframe := e.frame hs
    have hname := e.name_result
    cases h with
    | notXaml hclass => exact hname ▸ .notXaml hclass
    | typeNotFound hclass hfind =>
      exact hname ▸ .typeNotFound hclass (hframe.findType_eq_none hfind)
    | @noInitializer className t hclass hfind hnone =>
      have hne := e.token_before_ne hs hfind hnone
      exact hname ▸ .noInitializer hclass (e.findType_result_of_ne hs hs' hfind hne) hnone
    | @equipped className t p q c base signature placeholderCreated constructorCreated hclass hfind
        hserves =>
      by_cases heq : e.before.token = t.token
      · -- equipping the class once more has changed nothing but symbols
        rw [e.before_eq hs hfind heq] at hfind'
        have hsettled := Settled.equipped false false hclass' hfind' hserves
        obtain ⟨s'', hagain, hsymbols⟩ := hsettled.ends hs
        obtain ⟨-, rfl⟩ := hagain.unique hends
        exact (Settled.equipped _ _ hclass hfind hserves).congr hsymbols fun _ => rfl
      · have hfind'' := e.findType_result_of_ne hs hs' hfind heq
        have hsettled := Settled.equipped placeholderCreated constructorCreated hclass hfind''
          (e.serves_of_ne hs hserves heq)
        rw [hname, Section.typeName_congr hframe.outline] at hsettled
        exact hsettled

/-! ## A whole pass -/

variable {resources : List Resource} {findings : List Finding}

theorem Settled.steps (h : Settled external s r finding)
    (hsteps : ResourceSteps external s resources findings s') : Settled external s' r finding := by
  induction hsteps with
  | nil => exact h
  | cons hs hends hstep ht _ ih => exact ih (h.step hs ht hends hstep)

theorem ResourceStep.hasOneInitializer (h : ResourceStep external s r finding s')
    (hone : ∀ t ∈ s.types, t.HasOneInitializer) : ∀ t ∈ s'.types, t.HasOneInitializer := by
  cases h with
  | notXaml | typeNotFound | noInitializer => exact hone
  | equipped e =>
    intro t ht
    rw [e.types_result] at ht
    rcases Rows.mem_set.mp ht with ⟨ht, -⟩ | ⟨_, -, -, rfl⟩
    · exact hone t ht
    · exact e.hasOneInitializer_after (hone _ e.before_mem)

/-- In what a pass leaves every resource is settled. -/
theorem ResourceSteps.settled (h : ResourceSteps external s resources findings s')
    (hone : ∀ t ∈ s.types, t.HasOneInitializer) :
    List.Forall₂ (Settled external s') resources findings := by
  induction h with
  | nil => exact .nil
  | cons hs hends hstep ht hrest ih =>
    exact .cons ((hstep.settled hs ht hone).steps hrest) (ih (hstep.hasOneInitializer hone))

theorem tokensDistinct_congr (hs : s.TokensDistinct) (h : s'.withoutSymbols = s.withoutSymbols) :
    s'.TokensDistinct := by
  obtain ⟨symbols, rfl⟩ := Section.exists_symbols h
  exact ⟨hs.types, hs.methods⟩

/-- A pass over resources that are settled finds the same and changes nothing but symbols. -/
theorem ends_equipResources_of_settled (hs : s.TokensDistinct)
    (h : List.Forall₂ (Settled external s) resources findings) :
    ∃ s', (equipResources external resources).Ends s (.ok (findings.map (·.again))) s' ∧
      s'.withoutSymbols = s.withoutSymbols := by
  induction resources generalizing s findings with
  | nil =>
    cases h
    exact ⟨s, Edit.ends_pure.mpr ⟨rfl, rfl⟩, rfl⟩
  | cons r rest ih =>
    obtain _ | ⟨hr, hrest⟩ := h
    obtain ⟨t, hfirst, ht⟩ := hr.ends hs
    have hrest' := hrest.imp fun _ _ h => Settled.congr h ht fun _ => rfl
    obtain ⟨s', hlater, hs'⟩ := ih (tokensDistinct_congr hs ht) hrest'
    exact ⟨s', ends_equipResources_cons.mpr ⟨_, _, t, hfirst, hlater, rfl⟩, hs'.trans ht⟩

end DualInit
