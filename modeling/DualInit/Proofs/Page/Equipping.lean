import DualInit.Proofs.Page.FlagConstructor
import DualInit.Proofs.Page.Stages

/-!
# Equipping a class

What the pass does for one resource is one of four things: three ways to find nothing to equip,
which leave the section as it is, and an `Equipping` of a type.  An `Equipping` holds all that
goes into it: the type before, with its initializers halved, and fitted with a flag constructor;
the initializers and the base constructor that the dispatch body calls; and the references that
were added for it.

`resourceStep_of_ends` says that every success is one of the four.
-/

namespace DualInit

variable {external : Resolver} {s s' : Section} {r : Resource} {type : Token}

/-! ## Equipping -/

/-- All that goes into equipping a type of a section. -/
structure Equipping (external : Resolver) (s : Section) where
  before : TypeDef
  /-- The type with both initializers. -/
  halves : TypeDef
  /-- The type with its flag constructor. -/
  after : TypeDef
  precompiled : MethodDef
  runtime : MethodDef
  placeholderCreated : Bool
  base : Token
  baseSignature : Signature
  refs : List MemberRef
  constructor : FlagConstructor
  before_found : s.typeDef? before.token = some before
  halved : before.Halved s.nextMethodToken
    ⟨precompiled.token, runtime.token, placeholderCreated⟩ halves
  precompiled_mem : precompiled ∈ halves.methods
  precompiled_pops : precompiled.signature.callPops < 256
  runtime_mem : runtime ∈ halves.methods
  runtime_pops : runtime.signature.callPops < 256
  base_called : CallsBase external ((s.setType halves).withRefs refs) halves base baseSignature
  refs_length : refs.length ≤ 1
  refs_new : ∀ r ∈ refs, NewBaseReference s r
  fitted : halves.Fitted (s.setType halves).nextMethodToken
    (dispatchBody base precompiled runtime) constructor after
  tokensDistinct : (s.setType halves).TokensDistinct

namespace Equipping

/-- The section that is left. -/
def result (q : Equipping external s) : Section :=
  ((s.setType q.after).withRefs q.refs).hideReplaced q.constructor

/-- The entry of the report. -/
def entry (q : Equipping external s) (className : String) : EquippedType where
  sectionName := s.name
  typeName := (s.typeName q.before.token).getD className
  precompiled := q.precompiled.token
  runtime := q.runtime.token
  flagConstructor := q.constructor.token
  placeholderCreated := q.placeholderCreated
  constructorCreated := q.constructor.created

end Equipping

section

variable (q : Equipping external s)

theorem Equipping.before_mem : q.before ∈ s.types :=
  Section.mem_of_typeDef? q.before_found

theorem Equipping.token_halves : q.halves.token = q.before.token :=
  q.halved.token

theorem Equipping.token_after : q.after.token = q.before.token :=
  q.fitted.token.trans q.halved.token

theorem Equipping.shell_after : q.after.shell = q.before.shell :=
  q.fitted.shell.trans q.halved.shell

@[simp] theorem Equipping.types_result : q.result.types = (s.setType q.after).types := by
  unfold result Section.hideReplaced
  split <;> rfl

@[simp] theorem Equipping.memberRefs_result : q.result.memberRefs = s.memberRefs ++ q.refs := by
  unfold result Section.hideReplaced
  split <;> rfl

@[simp] theorem Equipping.typeRefs_result : q.result.typeRefs = s.typeRefs := by
  unfold result Section.hideReplaced
  split <;> rfl

@[simp] theorem Equipping.name_result : q.result.name = s.name := by
  unfold result Section.hideReplaced
  split <;> rfl

@[simp] theorem Equipping.resources_result : q.result.resources = s.resources := by
  unfold result Section.hideReplaced
  split <;> rfl

end

/-- How many methods were added for a resource. -/
def Finding.additions : Finding → Nat
  | .skipped _ => 0
  | .equipped e => (if e.placeholderCreated then 1 else 0) + if e.constructorCreated then 1 else 0

/-- What the pass does for one resource: what it finds, and the section that it leaves. -/
inductive ResourceStep (external : Resolver) (s : Section) (r : Resource) :
    Finding → Section → Prop where
  | notXaml (hclass : classify r = none) :
      ResourceStep external s r (.skipped ⟨s.name, r.name, none, .notXaml⟩) s
  | typeNotFound {className : String} (hclass : classify r = some className)
      (hfind : s.findType className = none) :
      ResourceStep external s r (.skipped ⟨s.name, r.name, some className, .typeNotFound⟩) s
  | noInitializer {className : String} {t : TypeDef} (hclass : classify r = some className)
      (hfind : s.findType className = some t) (hnone : t.initializer? precompiledName = none) :
      ResourceStep external s r (.skipped ⟨s.name, r.name, some className, .noInitializer⟩) s
  | equipped {className : String} (q : Equipping external s) (hclass : classify r = some className)
      (hfind : s.findType className = some q.before) :
      ResourceStep external s r (.equipped (q.entry className)) q.result

/-! ## Every success is a step -/

/-- Equipping keeps the outline of a section. -/
theorem Equipping.outline_result (q : Equipping external s) (hs : s.TokensDistinct) :
    q.result.outline = s.outline := by
  have hfound : s.typeDef? q.after.token = some q.before := by
    rw [q.token_after]
    exact q.before_found
  have houtline := Section.outline_setType hs hfound q.shell_after
  rw [Section.outline, q.types_result, q.typeRefs_result]
  exact houtline

/-- Fitting a halved type is equipping it. -/
theorem equipping_of_ends {t u : TypeDef} {initializers : Initializers} {className : String}
    {finding : Finding} (hs : s.TokensDistinct) (ht : s.typeDef? t.token = some t)
    (hhalved : t.Halved s.nextMethodToken initializers u)
    (hdistinct : (s.setType u).TokensDistinct)
    (h : (equipType external className t.token initializers).Ends (s.setType u) (.ok finding) s') :
    ∃ q : Equipping external s, q.before = t ∧ finding = .equipped (q.entry className) ∧
      s' = q.result := by
  obtain ⟨constructor, hensure, rfl⟩ := ends_equipType_ok.mp h
  obtain ⟨v, w, p, r, refs, base, signature, hv, hcalls, hlength, hnew, hp, hppops, hr, hrpops,
    hfitted, hleft⟩ := fitted_of_ends hdistinct hensure
  have hu : (s.setType u).typeDef? t.token = some u :=
    Section.typeDef?_setType_self ht hhalved.token
  obtain rfl := Option.some.inj (hu.symm.trans hv)
  obtain ⟨precompiled, runtime, placeholderCreated⟩ := initializers
  obtain rfl : p.token = precompiled := TypeDef.token_of_method? hp
  obtain rfl : r.token = runtime := TypeDef.token_of_method? hr
  have hagain : (s.setType u).setType w = s.setType w := Section.setType_setType hfitted.token.symm
  let q : Equipping external s :=
    { before := t, halves := u, after := w, precompiled := p, runtime := r, placeholderCreated
      base, baseSignature := signature, refs, constructor
      before_found := ht
      halved := hhalved
      precompiled_mem := List.mem_of_find?_eq_some hp
      precompiled_pops := hppops
      runtime_mem := List.mem_of_find?_eq_some hr
      runtime_pops := hrpops
      base_called := hcalls
      refs_length := hlength
      refs_new := fun r hr =>
        have hr := hnew r hr
        ⟨⟨hr.name, hr.hasThis, hr.params, hr.parent⟩, hr.isNew⟩
      fitted := hfitted
      tokensDistinct := hdistinct }
  have hq : s' = q.result := by
    rw [hleft, hagain]
    rfl
  refine ⟨q, rfl, ?_, hq⟩
  rw [hq, Section.typeName_congr (q.outline_result hs), q.name_result]
  rfl

/-- An entry says whether its initializers were split just now. -/
theorem placeholderCreated_of_ends {className : String} {initializers : Initializers}
    {finding : Finding}
    (h : (equipType external className type initializers).Ends s (.ok finding) s') :
    ∃ e, finding = .equipped e ∧ e.placeholderCreated = initializers.placeholderCreated := by
  obtain ⟨_, -, rfl⟩ := ends_equipType_ok.mp h
  exact ⟨_, rfl, rfl⟩

/-- A pass over a resource that succeeds skips it, or halves the type that it describes and fits
what it gets. -/
theorem cases_of_ends_equipResource {finding : Finding} (hs : s.TokensDistinct)
    (h : (equipResource external r).Ends s (.ok finding) s') :
    ResourceStep external s r finding s' ∨
      ∃ className t u initializers, classify r = some className ∧
        s.findType className = some t ∧ t.Halved s.nextMethodToken initializers u ∧
        (equipType external className t.token initializers).Ends (s.setType u) (.ok finding) s' := by
  rcases outcomes_of_ends_equipResource h with
    ⟨hclass, rfl, rfl⟩ | ⟨className, hclass, ⟨hfind, rfl, rfl⟩ | ⟨t, hfind, hlocated⟩⟩
  · exact Or.inl (.notXaml hclass)
  · exact Or.inl (.typeNotFound hclass hfind)
  · have ht := Section.typeDef?_of_findType hs hfind
    rcases hlocated with ⟨hlocate, rfl⟩ | ⟨initializers, _, hlocate, hequip⟩
    · obtain ⟨t', ht', hnone, rfl⟩ := ends_locate_none.mp hlocate
      obtain rfl := Option.some.inj (ht.symm.trans ht')
      exact Or.inl (.noInitializer hclass hfind hnone)
    · obtain ⟨t', u, ht', hhalved, rfl⟩ := halved_of_ends_locate hs hlocate
      obtain rfl := Option.some.inj (ht.symm.trans ht')
      exact Or.inr ⟨className, t, u, initializers, hclass, hfind, hhalved, hequip⟩

/-- For every resource that does not make it fail the pass takes one of the steps. -/
theorem resourceStep_of_ends {finding : Finding} (hs : s.TokensDistinct)
    (hroom : s.HasRoom finding.additions)
    (h : (equipResource external r).Ends s (.ok finding) s') :
    ResourceStep external s r finding s' := by
  rcases cases_of_ends_equipResource hs h with
    hstep | ⟨className, t, u, initializers, hclass, hfind, hhalved, hequip⟩
  · exact hstep
  · have ht := Section.typeDef?_of_findType hs hfind
    obtain ⟨e, rfl, hcreated⟩ := placeholderCreated_of_ends hequip
    have hdistinct : (s.setType u).TokensDistinct := by
      refine hs.setType_newTokens ?_ hhalved.tokens fun hnew => hroom.mono ?_
      · rw [hhalved.token]
        exact ht
      · rw [Finding.additions, hcreated, if_pos hnew]
        exact Nat.le_add_right _ _
    obtain ⟨q, rfl, hentry, rfl⟩ := equipping_of_ends hs ht hhalved hdistinct hequip
    rw [hentry]
    exact .equipped q hclass hfind

/-! ## Tokens and room -/

namespace Equipping

variable (q : Equipping external s)

theorem halves_found : (s.setType q.halves).typeDef? q.before.token = some q.halves :=
  Section.typeDef?_setType_self q.before_found q.token_halves

theorem setType_after : (s.setType q.halves).setType q.after = s.setType q.after :=
  Section.setType_setType q.fitted.token.symm

theorem types_eq : q.result.types = ((s.setType q.halves).setType q.after).types := by
  rw [q.setType_after, q.types_result]

theorem methods_result : q.result.methods = ((s.setType q.halves).setType q.after).methods := by
  rw [Section.methods, Section.methods, q.types_eq]

theorem hasRoom_halves {count : Nat} (hs : s.TokensDistinct)
    (hroom : s.HasRoom ((if q.placeholderCreated then 1 else 0) + count)) :
    (s.setType q.halves).HasRoom count := by
  refine Section.HasRoom.setType hs ?_ q.halved.tokens hroom
  rw [q.token_halves]
  exact q.before_found

theorem after_replaces_halves : (s.setType q.halves).typeDef? q.after.token = some q.halves := by
  rw [q.token_after]
  exact q.halves_found

/-- Equipping keeps tokens distinct while there is room for what it adds. -/
theorem tokensDistinct_result (hs : s.TokensDistinct)
    (hroom : s.HasRoom ((if q.placeholderCreated then 1 else 0) +
      if q.constructor.created then 1 else 0)) : q.result.TokensDistinct := by
  have hroom' := q.hasRoom_halves hs hroom
  have h := q.tokensDistinct.setType_newTokens q.after_replaces_halves q.fitted.tokens
    fun hnew => by rwa [if_pos hnew] at hroom'
  constructor
  · rw [q.types_eq]
    exact h.types
  · rw [q.methods_result]
    exact h.methods

/-- Equipping takes up as many numbers as it adds methods. -/
theorem hasRoom_result {count : Nat} (hs : s.TokensDistinct)
    (hroom : s.HasRoom ((if q.placeholderCreated then 1 else 0) +
      ((if q.constructor.created then 1 else 0) + count))) : q.result.HasRoom count := by
  rw [Section.HasRoom, q.methods_result]
  exact Section.HasRoom.setType q.tokensDistinct q.after_replaces_halves q.fitted.tokens
    (q.hasRoom_halves hs hroom)

end Equipping

theorem ResourceStep.tokensDistinct {finding : Finding} (hs : s.TokensDistinct)
    (hroom : s.HasRoom finding.additions) (h : ResourceStep external s r finding s') :
    s'.TokensDistinct := by
  cases h with
  | notXaml | typeNotFound | noInitializer => exact hs
  | equipped q => exact q.tokensDistinct_result hs hroom

theorem ResourceStep.hasRoom {finding : Finding} {count : Nat} (hs : s.TokensDistinct)
    (hroom : s.HasRoom (finding.additions + count)) (h : ResourceStep external s r finding s') :
    s'.HasRoom count := by
  cases h with
  | notXaml | typeNotFound | noInitializer => exact hroom.mono (Nat.le_add_left _ _)
  | equipped q =>
    rw [Finding.additions, Nat.add_assoc] at hroom
    exact q.hasRoom_result hs hroom

/-! ## Several resources -/

/-- The pass over several resources, step by step; the tokens of every section on the way are
distinct. -/
inductive ResourceSteps (external : Resolver) : Section → List Resource → List Finding → Section →
    Prop where
  | nil (s : Section) : ResourceSteps external s [] [] s
  | cons {s t u : Section} {r : Resource} {rest : List Resource} {finding : Finding}
      {findings : List Finding} (hs : s.TokensDistinct)
      (hends : (equipResource external r).Ends s (.ok finding) t)
      (hstep : ResourceStep external s r finding t) (ht : t.TokensDistinct)
      (hrest : ResourceSteps external t rest findings u) :
      ResourceSteps external s (r :: rest) (finding :: findings) u

/-- How many methods were added for several resources. -/
def additions : List Finding → Nat
  | [] => 0
  | finding :: findings => finding.additions + additions findings

/-- With room for all that is added, a pass over several resources goes step by step. -/
theorem resourceSteps_of_ends {resources : List Resource} {findings : List Finding}
    (hs : s.TokensDistinct) (hroom : s.HasRoom (additions findings))
    (h : (equipResources external resources).Ends s (.ok findings) s') :
    ResourceSteps external s resources findings s' := by
  induction resources generalizing s findings with
  | nil =>
    rw [equipResources, Edit.ends_pure, Except.ok.injEq] at h
    rw [h.1, h.2]
    exact .nil s
  | cons r rest ih =>
    obtain ⟨finding, findings', t, hfirst, hrest, rfl⟩ := ends_equipResources_cons.mp h
    rw [additions] at hroom
    have hstep := resourceStep_of_ends hs (hroom.mono (Nat.le_add_right _ _)) hfirst
    have ht := hstep.tokensDistinct hs (hroom.mono (Nat.le_add_right _ _))
    exact .cons hs hfirst hstep ht (ih ht (hstep.hasRoom hs hroom) hrest)

end DualInit
