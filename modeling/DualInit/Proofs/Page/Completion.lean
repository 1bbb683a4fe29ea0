import DualInit.Proofs.Page.Settled

/-!
# One of each

An equipped class has one precompiled initializer, one initializer for run time and one flag
constructor: `TypeDef.Complete`.  A step makes the class it equips complete if the class had no two
of a kind before (`Equipping.complete`), and equipping a complete class once more leaves it complete
with the same three methods (`TypeDef.Halved.of_complete`, `TypeDef.Fitted.of_complete`).

`Completed` says of a resource and its finding what a pass has done about it, as far as the methods
of the class go.  It asks for nothing of base constructors, and so, unlike `Settled`, it lasts under
passes with any resolver:

* what a pass leaves is completed (`ResourceSteps.completed`);
* every later pass that succeeds goes step by step, without a need of numbers for new methods, and
  finds the same (`resourceSteps_of_completed`);
* it leaves what is completed as such (`Completed.steps`).
-/

namespace DualInit

/-- The tokens of the methods of a type that have a property. -/
def TypeDef.tokensWhere (p : MethodDef → Bool) (t : TypeDef) : List Token :=
  (t.methods.filter p).map (·.token)

/-- A type has exactly one initializer of each name and exactly one flag constructor. -/
structure TypeDef.Complete (t : TypeDef) (precompiled runtime constructor : Token) : Prop where
  precompiled : t.tokensWhere (·.isInitializer precompiledName) = [precompiled]
  runtime : t.tokensWhere (·.isInitializer runtimeName) = [runtime]
  constructor : t.tokensWhere (·.isFlagConstructor) = [constructor]

/-- A type has at most one initializer of each name and at most one flag constructor. -/
structure TypeDef.NoDoubles (t : TypeDef) : Prop where
  precompiled : t.HasOneInitializer
  runtime : t.methods.countP (·.isInitializer runtimeName) ≤ 1
  constructor : t.methods.countP (·.isFlagConstructor) ≤ 1

variable {t u : TypeDef} {m c : MethodDef} {p : MethodDef → Bool} {fresh token : Token}
  {body : MethodBody} {initializers : Initializers} {constructor : FlagConstructor}
  {precompiled runtime flag : Token}

/-! ## Counting methods -/

namespace TypeDef

theorem length_tokensWhere (t : TypeDef) (p : MethodDef → Bool) :
    (t.tokensWhere p).length = t.methods.countP p := by
  rw [tokensWhere, List.length_map, List.countP_eq_length_filter]

theorem tokensWhere_eq_nil (h : t.methods.find? p = none) : t.tokensWhere p = [] := by
  rw [tokensWhere, List.filter_eq_nil_iff.mpr (List.find?_eq_none.mp h), List.map_nil]

/-- The method that is found is the only one, where there are no two. -/
theorem tokensWhere_eq_singleton (hm : t.methods.find? p = some m)
    (hone : t.methods.countP p ≤ 1) : t.tokensWhere p = [m.token] := by
  have hhead : (t.methods.filter p).head? = some m := by
    rw [List.head?_filter, hm]
  rw [List.countP_eq_length_filter] at hone
  rw [tokensWhere]
  generalize t.methods.filter p = found at hhead hone
  match found, hhead, hone with
  | [_], rfl, _ => rfl

/-- The only method is the one that is found. -/
theorem exists_find?_of_tokensWhere (h : t.tokensWhere p = [token]) :
    ∃ m, t.methods.find? p = some m ∧ m.token = token := by
  obtain ⟨m, hfilter, htoken⟩ := List.map_eq_singleton_iff.mp h
  refine ⟨m, ?_, htoken⟩
  rw [← List.head?_filter, hfilter]
  rfl

theorem tokensWhere_append :
    (t.append m).tokensWhere p = t.tokensWhere p ++ if p m then [m.token] else [] := by
  rw [tokensWhere, methods_append, List.filter_append, List.map_append, List.filter_singleton]
  cases p m <;> rfl

/-- What a method and its replacement both have or both lack is had by the methods that had it. -/
theorem tokensWhere_setMethod (h : ∀ r ∈ t.methods, r.token = m.token → p r = p m) :
    (t.setMethod m).tokensWhere p = t.tokensWhere p := by
  rw [tokensWhere, tokensWhere, setMethod, Rows.filter_set_congr h]
  exact Rows.map_key_set

/-- What no method had is had by its replacement alone. -/
theorem tokensWhere_setMethod_of_none (hdistinct : (t.methods.map (·.token)).Nodup)
    (hnone : t.methods.find? p = none) (hold : m.token ∈ t.methods.map (·.token))
    (hm : p m = true) : (t.setMethod m).tokensWhere p = [m.token] := by
  have hsame : (t.setMethod m).methods.filter p =
      (t.setMethod m).methods.filter (·.token == m.token) := by
    refine List.filter_congr fun r hr => ?_
    rcases Rows.mem_set.mp hr with ⟨hr, hne⟩ | ⟨-, -, -, rfl⟩
    · rw [beq_false_of_ne hne]
      exact Bool.eq_false_iff.mpr (List.find?_eq_none.mp hnone r hr)
    · rw [hm, beq_self_eq_true]
  have hkeys : ((t.setMethod m).methods.filter (·.token == m.token)).map (·.token) =
      ((t.setMethod m).methods.map (·.token)).filter (· == m.token) := by
    rw [List.filter_map]
    rfl
  rw [tokensWhere, hsame, hkeys, map_token_setMethod, List.filter_beq,
    List.count_eq_one_of_mem hdistinct hold]
  rfl

/-! ## Complete types -/

theorem Complete.noDoubles (h : t.Complete precompiled runtime flag) : t.NoDoubles where
  precompiled := by
    rw [HasOneInitializer, ← length_tokensWhere, h.precompiled]
    exact Nat.le_refl 1
  runtime := by
    rw [← length_tokensWhere, h.runtime]
    exact Nat.le_refl 1
  constructor := by
    rw [← length_tokensWhere, h.constructor]
    exact Nat.le_refl 1

/-- Halving a type gives it one initializer of each name, if it had no two of one name. -/
theorem Halved.tokensWhere_isInitializer (h : t.Halved fresh initializers u)
    (hdistinct : (t.methods.map (·.token)).Nodup) (hone : t.NoDoubles) :
    u.tokensWhere (·.isInitializer precompiledName) = [initializers.precompiled] ∧
      u.tokensWhere (·.isInitializer runtimeName) = [initializers.runtime] := by
  cases h with
  | kept hwhole hruntime =>
    exact ⟨tokensWhere_eq_singleton hwhole hone.precompiled,
      tokensWhere_eq_singleton hruntime hone.runtime⟩
  | @split whole hwhole hruntime =>
    have hparams := (MethodDef.isInitializer_iff.mp (isInitializer_of_initializer? hwhole)).2
    have hplaceholder (name : String) :
        MethodDef.isInitializer name { whole.placeholder with token := fresh } =
          (precompiledName == name) := Bool.and_true _
    have hnames : (precompiledName == runtimeName) = false := by decide
    constructor
    · rw [tokensWhere_append, hplaceholder, beq_self_eq_true, if_pos rfl,
        tokensWhere_eq_nil (hone.precompiled.initializer?_moved hwhole)]
      rfl
    · have hold : whole.token ∈ t.methods.map (·.token) :=
        List.mem_map_of_mem (mem_of_initializer? hwhole)
      rw [tokensWhere_append, hplaceholder, hnames, if_neg Bool.false_ne_true, List.append_nil]
      exact tokensWhere_setMethod_of_none hdistinct hruntime hold
        (MethodDef.isInitializer_iff.mpr ⟨rfl, hparams⟩)

/-- What no method with the name of an initializer has is had by the methods that had it. -/
theorem Halved.tokensWhere_eq (h : t.Halved fresh initializers u)
    (hdistinct : (t.methods.map (·.token)).Nodup)
    (hp : ∀ m, m.name = precompiledName ∨ m.name = runtimeName → p m = false) :
    u.tokensWhere p = t.tokensWhere p := by
  cases h with
  | kept => rfl
  | @split whole hwhole =>
    have hname := (MethodDef.isInitializer_iff.mp (isInitializer_of_initializer? hwhole)).1
    have hmoved : p whole.moved = false := hp _ (Or.inr rfl)
    have hplaceholder : p { whole.placeholder with token := fresh } = false := hp _ (Or.inl rfl)
    have hset : (t.setMethod whole.moved).tokensWhere p = t.tokensWhere p := by
      refine tokensWhere_setMethod fun r hr heq => ?_
      rw [eq_of_mem_of_token hdistinct hr (mem_of_initializer? hwhole) heq, hmoved]
      exact hp _ (Or.inl hname)
    rw [tokensWhere_append, hset, hplaceholder, if_neg Bool.false_ne_true, List.append_nil]

/-- Fitting a type gives it one flag constructor, if it had no two. -/
theorem Fitted.tokensWhere_isFlagConstructor (h : t.Fitted fresh body constructor u)
    (hdistinct : (t.methods.map (·.token)).Nodup)
    (hone : t.methods.countP (·.isFlagConstructor) ≤ 1) :
    u.tokensWhere (·.isFlagConstructor) = [constructor.token] := by
  cases h with
  | @replaced c hc =>
    have hset : (t.setMethod (c.withBody body)).tokensWhere (·.isFlagConstructor) =
        t.tokensWhere (·.isFlagConstructor) := by
      refine tokensWhere_setMethod fun r hr heq => ?_
      rw [eq_of_mem_of_token hdistinct hr (List.mem_of_find?_eq_some hc) heq]
      rfl
    rw [hset]
    exact tokensWhere_eq_singleton hc hone
  | added hnone =>
    rw [tokensWhere_append, if_pos isFlagConstructor_newFlagConstructor, tokensWhere_eq_nil hnone]
    rfl

/-- What no flag constructor has is had by the methods that had it. -/
theorem Fitted.tokensWhere_eq (h : t.Fitted fresh body constructor u)
    (hdistinct : (t.methods.map (·.token)).Nodup)
    (hp : ∀ m, m.isFlagConstructor = true → p m = false) :
    u.tokensWhere p = t.tokensWhere p := by
  cases h with
  | @replaced c hc =>
    have hflag := isFlagConstructor_of_flagConstructor? hc
    refine tokensWhere_setMethod fun r hr heq => ?_
    rw [eq_of_mem_of_token hdistinct hr (List.mem_of_find?_eq_some hc) heq, hp c hflag]
    exact (hp (c.withBody body) hflag).symm
  | added =>
    rw [tokensWhere_append, hp _ isFlagConstructor_newFlagConstructor, if_neg Bool.false_ne_true,
      List.append_nil]

/-- Fitting a type with one initializer of each name completes it. -/
theorem Fitted.complete (h : t.Fitted fresh body constructor u)
    (hdistinct : (t.methods.map (·.token)).Nodup)
    (hprecompiled : t.tokensWhere (·.isInitializer precompiledName) = [precompiled])
    (hruntime : t.tokensWhere (·.isInitializer runtimeName) = [runtime])
    (hone : t.methods.countP (·.isFlagConstructor) ≤ 1) :
    u.Complete precompiled runtime constructor.token where
  precompiled :=
    (h.tokensWhere_eq hdistinct fun _ hm =>
      MethodDef.isInitializer_of_isFlagConstructor hm _).trans hprecompiled
  runtime :=
    (h.tokensWhere_eq hdistinct fun _ hm =>
      MethodDef.isInitializer_of_isFlagConstructor hm _).trans hruntime
  constructor := h.tokensWhere_isFlagConstructor hdistinct hone

/-- Halving a complete type finds its initializers and leaves it as it is. -/
theorem Halved.of_complete (h : t.Halved fresh initializers u)
    (ht : t.Complete precompiled runtime flag) :
    u = t ∧ initializers = ⟨precompiled, runtime, false⟩ := by
  obtain ⟨p, hp, rfl⟩ := exists_find?_of_tokensWhere ht.precompiled
  obtain ⟨r, hr, rfl⟩ := exists_find?_of_tokensWhere ht.runtime
  cases h with
  | kept hwhole hruntime =>
    obtain rfl := Option.some.inj (hp.symm.trans hwhole)
    obtain rfl := Option.some.inj (hr.symm.trans hruntime)
    exact ⟨rfl, rfl⟩
  | split _ hnone => exact absurd (hr.symm.trans hnone) (by simp)

/-- Fitting a complete type finds its flag constructor and leaves it complete. -/
theorem Fitted.of_complete (h : t.Fitted fresh body constructor u)
    (hdistinct : (t.methods.map (·.token)).Nodup) (ht : t.Complete precompiled runtime flag) :
    constructor = ⟨flag, false⟩ ∧ u.Complete precompiled runtime flag := by
  have hu := h.complete hdistinct ht.precompiled ht.runtime ht.noDoubles.constructor
  obtain ⟨c, hc, rfl⟩ := exists_find?_of_tokensWhere ht.constructor
  cases h with
  | replaced hc' =>
    obtain rfl := Option.some.inj (hc.symm.trans hc')
    exact ⟨rfl, hu⟩
  | added hnone => exact absurd (hc.symm.trans hnone) (by simp)

end TypeDef

/-! ## Equipping -/

namespace Equipping

variable {external : Resolver} {s : Section} (q : Equipping external s)

/-- A type that is equipped is complete then, if it had no two of a kind. -/
theorem complete (hs : s.TokensDistinct) (hone : q.before.NoDoubles) :
    q.after.Complete q.precompiled.token q.runtime.token q.constructor.token := by
  have hdistinct := hs.of_mem q.before_mem
  obtain ⟨hprecompiled, hruntime⟩ := q.halved.tokensWhere_isInitializer hdistinct hone
  refine q.fitted.complete q.halves_distinct hprecompiled hruntime ?_
  have hsame : q.halves.tokensWhere (·.isFlagConstructor) =
      q.before.tokensWhere (·.isFlagConstructor) := by
    refine q.halved.tokensWhere_eq hdistinct fun m hm => ?_
    rw [MethodDef.isFlagConstructor, MethodDef.isInstanceConstructor_of_name hm, Bool.false_and]
  rw [← TypeDef.length_tokensWhere, hsame, TypeDef.length_tokensWhere]
  exact hone.constructor

/-- Equipping a complete type adds nothing and leaves it complete with the same methods. -/
theorem of_complete (h : q.before.Complete precompiled runtime flag) :
    q.precompiled.token = precompiled ∧ q.runtime.token = runtime ∧
      q.placeholderCreated = false ∧ q.constructor = ⟨flag, false⟩ ∧
      q.after.Complete precompiled runtime flag := by
  obtain ⟨hhalves, hinitializers⟩ := q.halved.of_complete h
  obtain ⟨hprecompiled, hruntime, hcreated⟩ := Initializers.mk.inj hinitializers
  obtain ⟨hconstructor, hafter⟩ := q.fitted.of_complete q.halves_distinct (hhalves ▸ h)
  exact ⟨hprecompiled, hruntime, hcreated, hconstructor, hafter⟩

end Equipping

/-! ## What lasts -/

/-- What a pass has found for a resource holds, and the class that it has equipped is complete. -/
inductive Completed (s : Section) (r : Resource) : Finding → Prop where
  | notXaml (hclass : classify r = none) :
      Completed s r (.skipped ⟨s.name, r.name, none, .notXaml⟩)
  | typeNotFound {className : String} (hclass : classify r = some className)
      (hfind : s.findType className = none) :
      Completed s r (.skipped ⟨s.name, r.name, some className, .typeNotFound⟩)
  | noInitializer {className : String} {t : TypeDef} (hclass : classify r = some className)
      (hfind : s.findType className = some t) (hnone : t.initializer? precompiledName = none) :
      Completed s r (.skipped ⟨s.name, r.name, some className, .noInitializer⟩)
  | equipped {className : String} {t : TypeDef} {e : EquippedType}
      (hclass : classify r = some className) (hfind : s.findType className = some t)
      (hsection : e.sectionName = s.name)
      (htypeName : e.typeName = (s.typeName t.token).getD className)
      (hcomplete : t.Complete e.precompiled e.runtime e.flagConstructor) :
      Completed s r (.equipped e)

/-- A pass that finds everything in place adds nothing. -/
theorem Finding.additions_again (finding : Finding) : finding.again.additions = 0 := by
  cases finding <;> rfl

variable {external : Resolver} {s s' : Section} {r r' : Resource} {finding finding' : Finding}
  {resources : List Resource} {findings findings' : List Finding}

/-- The entry for a complete class is about a type of the section. -/
theorem Completed.exists_standsFor {e : EquippedType} (h : Completed s r (.equipped e)) :
    ∃ t ∈ s.types, e.StandsFor s t ∧ t.Complete e.precompiled e.runtime e.flagConstructor := by
  cases h with
  | @equipped className t _ _ hfind hsection htypeName hcomplete =>
    exact ⟨t, Section.mem_of_findType hfind, ⟨hsection, className, hfind, htypeName⟩, hcomplete⟩

/-- Every finding is that of a resource. -/
theorem exists_completed_of_mem (h : List.Forall₂ (Completed s) resources findings)
    (hmem : finding ∈ findings) : ∃ r, Completed s r finding := by
  induction h with
  | nil => exact absurd hmem List.not_mem_nil
  | cons hr _ ih =>
    rcases List.mem_cons.mp hmem with rfl | hmem
    · exact ⟨_, hr⟩
    · exact ih hmem

/-- Symbols do not matter. -/
theorem Completed.congr (h : Completed s r finding)
    (hsymbols : s'.withoutSymbols = s.withoutSymbols) : Completed s' r finding := by
  obtain ⟨symbols, rfl⟩ := Section.exists_symbols hsymbols
  have htypes : ({ s with symbols } : Section).types = s.types := rfl
  have hfindType := Section.findType_of_types htypes
  have houtline : ({ s with symbols } : Section).outline = s.outline := rfl
  cases h with
  | notXaml hclass => exact .notXaml hclass
  | typeNotFound hclass hfind => exact .typeNotFound hclass ((hfindType _).trans hfind)
  | noInitializer hclass hfind hnone =>
    exact .noInitializer hclass ((hfindType _).trans hfind) hnone
  | equipped hclass hfind hsection htypeName hcomplete =>
    rw [← Section.typeName_congr houtline] at htypeName
    exact .equipped hclass ((hfindType _).trans hfind) hsection htypeName hcomplete

/-! ### Steps -/

/-- A step completes what it does for its resource. -/
theorem ResourceStep.completed (hs : s.TokensDistinct) (hs' : s'.TokensDistinct)
    (hone : ∀ t ∈ s.types, t.NoDoubles) (h : ResourceStep external s r finding s') :
    Completed s' r finding := by
  cases h with
  | notXaml hclass => exact .notXaml hclass
  | typeNotFound hclass hfind => exact .typeNotFound hclass hfind
  | noInitializer hclass hfind hnone => exact .noInitializer hclass hfind hnone
  | @equipped className q hclass hfind =>
    refine .equipped hclass (q.findType_result_self hs hs' hfind) q.name_result.symm ?_
      (q.complete hs (hone _ q.before_mem))
    rw [Section.typeName_congr (q.frame hs).outline, q.token_after]
    rfl

/-- A step leaves no doubles. -/
theorem ResourceStep.noDoubles (hs : s.TokensDistinct) (hone : ∀ t ∈ s.types, t.NoDoubles)
    (h : ResourceStep external s r finding s') : ∀ t ∈ s'.types, t.NoDoubles := by
  cases h with
  | notXaml | typeNotFound | noInitializer => exact hone
  | equipped q =>
    intro t ht
    rw [q.types_result] at ht
    rcases Rows.mem_set.mp ht with ⟨ht, -⟩ | ⟨_, -, -, rfl⟩
    · exact hone t ht
    · exact (q.complete hs (hone _ q.before_mem)).noDoubles

/-- What is completed stays so, whatever step comes next. -/
theorem Completed.step (h : Completed s r finding) (hs : s.TokensDistinct)
    (hs' : s'.TokensDistinct) (hstep : ResourceStep external s r' finding' s') :
    Completed s' r finding := by
  cases hstep with
  | notXaml | typeNotFound | noInitializer => exact h
  | @equipped className' q hclass' hfind' =>
    have hframe := q.frame hs
    have hname := q.name_result
    cases h with
    | notXaml hclass => exact hname ▸ .notXaml hclass
    | typeNotFound hclass hfind =>
      exact hname ▸ .typeNotFound hclass (hframe.findType_eq_none hfind)
    | @noInitializer className t hclass hfind hnone =>
      have hne := q.token_before_ne hs hfind hnone
      exact hname ▸ .noInitializer hclass (q.findType_result_of_ne hs hs' hfind hne) hnone
    | @equipped className t e hclass hfind hsection htypeName hcomplete =>
      by_cases heq : q.before.token = t.token
      · -- the step equips the same class, which has all it needs
        obtain rfl := q.before_eq hs hfind heq
        refine .equipped hclass (q.findType_result_self hs hs' hfind) (hsection.trans hname.symm) ?_
          (q.of_complete hcomplete).2.2.2.2
        rw [Section.typeName_congr hframe.outline, q.token_after]
        exact htypeName
      · refine .equipped hclass (q.findType_result_of_ne hs hs' hfind heq)
          (hsection.trans hname.symm) ?_ hcomplete
        rw [Section.typeName_congr hframe.outline]
        exact htypeName

/-- What is completed for a resource that describes a type of the section. -/
theorem Completed.cases_of_findType {className : String} {t : TypeDef}
    (h : Completed s r finding) (hclass : classify r = some className)
    (hfind : s.findType className = some t) :
    (t.initializer? precompiledName = none ∧
      finding = .skipped ⟨s.name, r.name, some className, .noInitializer⟩) ∨
    ∃ e, finding = .equipped e ∧ e.sectionName = s.name ∧
      e.typeName = (s.typeName t.token).getD className ∧
      t.Complete e.precompiled e.runtime e.flagConstructor := by
  cases h with
  | notXaml hclass' => exact absurd (hclass.symm.trans hclass') (by simp)
  | typeNotFound hclass' hfind' =>
    obtain rfl := Option.some.inj (hclass.symm.trans hclass')
    exact absurd (hfind.symm.trans hfind') (by simp)
  | noInitializer hclass' hfind' hnone =>
    obtain rfl := Option.some.inj (hclass.symm.trans hclass')
    obtain rfl := Option.some.inj (hfind.symm.trans hfind')
    exact Or.inl ⟨hnone, rfl⟩
  | equipped hclass' hfind' hsection htypeName hcomplete =>
    obtain rfl := Option.some.inj (hclass.symm.trans hclass')
    obtain rfl := Option.some.inj (hfind.symm.trans hfind')
    exact Or.inr ⟨_, rfl, hsection, htypeName, hcomplete⟩

/-- A step for a resource for which everything is in place finds the same. -/
theorem Completed.again_of_step (h : Completed s r finding)
    (hstep : ResourceStep external s r finding' s') : finding' = finding.again := by
  cases hstep with
  | notXaml hclass =>
    cases h with
    | notXaml => rfl
    | typeNotFound hclass' | noInitializer hclass' | equipped hclass' =>
      exact absurd (hclass.symm.trans hclass') (by simp)
  | typeNotFound hclass hfind =>
    cases h with
    | notXaml hclass' => exact absurd (hclass.symm.trans hclass') (by simp)
    | typeNotFound hclass' =>
      obtain rfl := Option.some.inj (hclass.symm.trans hclass')
      rfl
    | noInitializer hclass' hfind' | equipped hclass' hfind' =>
      obtain rfl := Option.some.inj (hclass.symm.trans hclass')
      exact absurd (hfind.symm.trans hfind') (by simp)
  | noInitializer hclass hfind hnone =>
    rcases h.cases_of_findType hclass hfind with ⟨-, rfl⟩ | ⟨e, -, -, -, hcomplete⟩
    · rfl
    · obtain ⟨p, hp, -⟩ := TypeDef.exists_find?_of_tokensWhere hcomplete.precompiled
      exact absurd (hnone.symm.trans hp) (by simp)
  | equipped q hclass hfind =>
    rcases h.cases_of_findType hclass hfind with
      ⟨hnone, -⟩ | ⟨e, rfl, hsection, htypeName, hcomplete⟩
    · exact absurd hnone q.halved.initializer?_ne_none
    · obtain ⟨hprecompiled, hruntime, hcreated, hconstructor, -⟩ := q.of_complete hcomplete
      rw [Equipping.entry, Finding.again, hprecompiled, hruntime, hcreated, hconstructor,
        ← hsection, ← htypeName]

/-- Where everything is in place, a pass over the resource is a step, whether or not there are
numbers left for new methods. -/
theorem Completed.resourceStep (h : Completed s r finding) (hs : s.TokensDistinct)
    (hends : (equipResource external r).Ends s (.ok finding') s') :
    ResourceStep external s r finding' s' := by
  rcases cases_of_ends_equipResource hs hends with
    hstep | ⟨className, t, u, initializers, hclass, hfind, hhalved, hequip⟩
  · exact hstep
  · have ht := Section.typeDef?_of_findType hs hfind
    have hkept : u = t := by
      rcases h.cases_of_findType hclass hfind with ⟨hnone, -⟩ | ⟨e, -, -, -, hcomplete⟩
      · exact absurd hnone hhalved.initializer?_ne_none
      · exact (hhalved.of_complete hcomplete).1
    subst hkept
    have hdistinct : (s.setType u).TokensDistinct := by
      rw [Section.setType_self hs ht]
      exact hs
    obtain ⟨q, rfl, hentry, rfl⟩ := equipping_of_ends hs ht hhalved hdistinct hequip
    rw [hentry]
    exact .equipped q hclass hfind

/-! ### Passes -/

theorem Completed.steps (h : Completed s r finding)
    (hsteps : ResourceSteps external s resources findings s') : Completed s' r finding := by
  induction hsteps with
  | nil => exact h
  | cons hs _ hstep ht _ ih => exact ih (h.step hs ht hstep)

/-- A pass completes what it does for its resources. -/
theorem ResourceSteps.completed (h : ResourceSteps external s resources findings s')
    (hone : ∀ t ∈ s.types, t.NoDoubles) : List.Forall₂ (Completed s') resources findings := by
  induction h with
  | nil => exact .nil
  | cons hs _ hstep ht hrest ih =>
    exact .cons ((hstep.completed hs ht hone).steps hrest) (ih (hstep.noDoubles hs hone))

/-- Where everything is in place, a pass that succeeds goes step by step and finds the same. -/
theorem resourceSteps_of_completed (hs : s.TokensDistinct)
    (h : List.Forall₂ (Completed s) resources findings)
    (hends : (equipResources external resources).Ends s (.ok findings') s') :
    ResourceSteps external s resources findings' s' ∧ findings' = findings.map (·.again) := by
  induction resources generalizing s findings findings' with
  | nil =>
    cases h
    rw [equipResources, Edit.ends_pure, Except.ok.injEq] at hends
    rw [hends.1, hends.2]
    exact ⟨.nil s, rfl⟩
  | cons r rest ih =>
    obtain _ | ⟨hr, hrest⟩ := h
    obtain ⟨first, later, t, hfirst, hlater, rfl⟩ := ends_equipResources_cons.mp hends
    have hstep := hr.resourceStep hs hfirst
    have hagain := hr.again_of_step hstep
    have hroom : s.HasRoom first.additions := by
      rw [hagain, Finding.additions_again]
      exact s.hasRoom_zero
    have ht := hstep.tokensDistinct hs hroom
    obtain ⟨hsteps, rfl⟩ := ih ht (hrest.imp fun _ _ h => Completed.step h hs ht hstep) hlater
    rw [hagain] at hfirst hstep ⊢
    exact ⟨.cons hs hfirst hstep ht hsteps, rfl⟩

end DualInit
