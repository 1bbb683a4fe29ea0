import DualInit.Page.Report
import DualInit.Proofs.Page.FlagConstructor

/-!
# What a type has gained

`TypeDef.Refitted` relates a type to what it is once it was equipped, however often: it was halved
and then fitted with a flag constructor as an entry of a report says, and only the body of the
constructor is that of the last time (`Refitted.trans`).

`Refitted.changes` says the same method by method.  Every old method stands where it stood; one
of them may have a new name (`EquippedType.reworked`), another one a new body, and the new methods
come behind (`EquippedType.newMethods`).
-/

namespace DualInit

/-- What an equipped type has in the place of a method. -/
def EquippedType.reworked (e : EquippedType) (body : MethodBody) (m : MethodDef) : MethodDef :=
  if e.placeholderCreated = true ∧ m.token = e.runtime then m.moved
  else if e.constructorCreated = false ∧ m.token = e.flagConstructor then m.withBody body
  else m

/-- The methods that an equipped type has behind the old ones. -/
def EquippedType.newMethods (e : EquippedType) (body : MethodBody) (t : TypeDef) :
    List MethodDef :=
  (if e.placeholderCreated then
    (t.method? e.runtime).toList.map fun whole => { whole.placeholder with token := e.precompiled }
  else []) ++
  if e.constructorCreated then [{ newFlagConstructor body with token := e.flagConstructor }] else []

/-- How an entry of a report says that a type has changed. -/
structure TypeDef.ChangedAs (e : EquippedType) (body : MethodBody) (t u : TypeDef) : Prop where
  /-- Apart from its methods the type is as it was. -/
  shell : u.shell = t.shell
  /-- The old methods keep their places, and the new ones come behind them. -/
  methods : u.methods = t.methods.map (e.reworked body) ++ e.newMethods body t
  /-- The method that has a new name was an initializer. -/
  moved : e.placeholderCreated = true →
    ∃ whole ∈ t.methods, whole.token = e.runtime ∧ whole.isInitializer precompiledName = true
  /-- The method that has a new body was a flag constructor. -/
  replaced : e.constructorCreated = false →
    ∃ c ∈ t.methods, c.token = e.flagConstructor ∧ c.isFlagConstructor = true
  /-- The entry is about methods of the type. -/
  owned : ∀ token ∈ [e.precompiled, e.runtime, e.flagConstructor],
    token ∈ u.methods.map (·.token)

/-- A type was halved and fitted as an entry of a report says. -/
def TypeDef.Refitted (e : EquippedType) (body : MethodBody) (t u : TypeDef) : Prop :=
  ∃ fresh fresh' v, t.Halved fresh ⟨e.precompiled, e.runtime, e.placeholderCreated⟩ v ∧
    v.Fitted fresh' body ⟨e.flagConstructor, e.constructorCreated⟩ u ∧
    (v.methods.map (·.token)).Nodup

variable {t u v w : TypeDef} {m : MethodDef} {fresh fresh' : Token} {body body' : MethodBody}
  {initializers initializers' : Initializers} {constructor constructor' : FlagConstructor}
  {e : EquippedType}

/-! ## Once more -/

namespace TypeDef

/-- Halving a type needs an initializer under the name a page comes with. -/
theorem Halved.isSome_initializer? (h : t.Halved fresh initializers u) :
    (t.initializer? precompiledName).isSome = true := by
  cases h with
  | kept hwhole => rw [hwhole]; rfl
  | split hwhole => rw [hwhole]; rfl

theorem Halved.initializer?_ne_none (h : t.Halved fresh initializers u) :
    t.initializer? precompiledName ≠ none := by
  intro hnone
  have hsome := h.isSome_initializer?
  rw [hnone] at hsome
  exact absurd hsome Bool.false_ne_true

/-- A type that has an initializer for run time is halved already. -/
theorem Halved.eq_of_runtime (h : t.Halved fresh initializers u)
    (hruntime : (t.initializer? runtimeName).isSome = true) :
    u = t ∧ initializers.placeholderCreated = false := by
  cases h with
  | kept => exact ⟨rfl, rfl⟩
  | split _ hnone =>
    rw [hnone] at hruntime
    exact absurd hruntime Bool.false_ne_true

theorem setMethod_setMethod {p : MethodDef} (hp : p.token = m.token) :
    (t.setMethod p).setMethod m = t.setMethod m :=
  congrArg (fun methods => { t with methods }) (Rows.set_set hp)

/-- A method that is appended has a new token. -/
theorem notMem_of_append (hdistinct : ((t.append m).methods.map (·.token)).Nodup) :
    m.token ∉ t.methods.map (·.token) := by
  rw [methods_append, List.map_append, List.map_singleton] at hdistinct
  exact fun hmem => List.disjoint_of_nodup_append hdistinct hmem (List.mem_singleton_self _)

/-- Where a method was appended, replacing the method of its token is appending another one. -/
theorem setMethod_append {p : MethodDef} (hp : p.token = m.token)
    (hdistinct : ((t.append m).methods.map (·.token)).Nodup) :
    (t.append m).setMethod p = t.append p := by
  have hnew : p.token ∉ t.methods.map (·.token) := hp ▸ notMem_of_append hdistinct
  have hold : Rows.set MethodDef.token p t.methods = t.methods := Rows.set_of_notMem hnew
  rw [setMethod, methods_append, Rows.set, List.map_append, ← Rows.set, hold, List.map_singleton,
    if_pos hp.symm]
  rfl

/-- Fitting a fitted type replaces the body of the same constructor. -/
theorem Fitted.again (h : t.Fitted fresh body constructor u)
    (hagain : u.Fitted fresh' body' constructor' w)
    (hdistinct : (t.methods.map (·.token)).Nodup) (hdistinct' : (u.methods.map (·.token)).Nodup) :
    t.Fitted fresh body' constructor w ∧ constructor' = ⟨constructor.token, false⟩ := by
  obtain ⟨c, hc, htoken, -⟩ := h.flagConstructor? hdistinct
  cases hagain with
  | added hnone => exact absurd (hc.symm.trans hnone) (by simp)
  | @replaced c' hc' =>
    obtain rfl := Option.some.inj (hc.symm.trans hc')
    refine ⟨?_, by rw [htoken]⟩
    have hmem := List.mem_of_find?_eq_some hc
    cases h with
    | @replaced old hold =>
      have hold' : old.withBody body ∈ (t.setMethod (old.withBody body)).methods :=
        Rows.mem_set.mpr (Or.inr ⟨old, List.mem_of_find?_eq_some hold, rfl, rfl⟩)
      obtain rfl := eq_of_mem_of_token hdistinct' hmem hold' htoken
      have hset : (t.setMethod (old.withBody body)).setMethod (old.withBody body') =
          t.setMethod (old.withBody body') := setMethod_setMethod rfl
      exact hset ▸ .replaced hold
    | added hnone =>
      obtain rfl := eq_of_mem_of_token hdistinct' hmem
        (List.mem_append_right _ (List.mem_singleton_self _)) htoken
      have hset : (t.append { newFlagConstructor body with token := fresh }).setMethod
          { newFlagConstructor body' with token := fresh } =
          t.append { newFlagConstructor body' with token := fresh } :=
        setMethod_append rfl hdistinct'
      exact hset ▸ .added hnone

/-! ## Method by method -/

/-- Replacing a method by a change of it is changing the method of its token. -/
theorem methods_setMethod {change : MethodDef → MethodDef} (hm : m ∈ t.methods)
    (hdistinct : (t.methods.map (·.token)).Nodup) (hchange : (change m).token = m.token) :
    (t.setMethod (change m)).methods =
      t.methods.map fun r => if r.token = m.token then change r else r := by
  refine List.map_congr_left fun r hr => ?_
  rw [hchange]
  split
  · next heq => rw [eq_of_mem_of_token hdistinct hr hm heq]
  · rfl

/-- The methods of a halved type. -/
theorem Halved.methods (h : t.Halved fresh initializers u)
    (hdistinct : (t.methods.map (·.token)).Nodup) :
    u.methods =
      t.methods.map (fun m =>
        if initializers.placeholderCreated = true ∧ m.token = initializers.runtime then m.moved
        else m) ++
      if initializers.placeholderCreated then
        (t.method? initializers.runtime).toList.map fun whole =>
          { whole.placeholder with token := initializers.precompiled }
      else [] := by
  cases h with
  | kept => simp
  | @split whole hwhole =>
    have hmem := mem_of_initializer? hwhole
    rw [methods_append, methods_setMethod hmem hdistinct rfl]
    simp [method?_of_mem hdistinct hmem]

/-- The methods of a fitted type. -/
theorem Fitted.methods (h : t.Fitted fresh body constructor u)
    (hdistinct : (t.methods.map (·.token)).Nodup) :
    u.methods =
      t.methods.map (fun m =>
        if constructor.created = false ∧ m.token = constructor.token then m.withBody body
        else m) ++
      if constructor.created then
        [{ newFlagConstructor body with token := constructor.token }]
      else [] := by
  cases h with
  | @replaced c hc =>
    rw [methods_setMethod (List.mem_of_find?_eq_some hc) hdistinct rfl]
    simp
  | added => simp

namespace Refitted

theorem shell (h : t.Refitted e body u) : u.shell = t.shell := by
  obtain ⟨_, _, v, hhalved, hfitted, -⟩ := h
  exact hfitted.shell.trans hhalved.shell

/-- A constructor without parameters is neither moved nor given a body. -/
theorem parameterlessConstructor? (h : t.Refitted e body u)
    (hdistinct : (t.methods.map (·.token)).Nodup) :
    u.parameterlessConstructor? = t.parameterlessConstructor? := by
  obtain ⟨_, _, v, hhalved, hfitted, hv⟩ := h
  exact (hfitted.parameterlessConstructor? hv).trans (hhalved.parameterlessConstructor? hdistinct)

/-- Equipping a type that was equipped before changes no more than the body of the same
constructor. -/
theorem trans {e' : EquippedType} (h : t.Refitted e body u) (h' : u.Refitted e' body' w)
    (hdistinct : (u.methods.map (·.token)).Nodup) : t.Refitted e body' w := by
  obtain ⟨_, _, v, hhalved, hfitted, hv⟩ := h
  obtain ⟨_, _, v', hhalved', hfitted', -⟩ := h'
  obtain ⟨runtime, hruntime, -⟩ := hhalved.initializer?_runtime
  have hsome : (u.initializer? runtimeName).isSome = true := by
    rw [hfitted.initializer? hv, hruntime]
    rfl
  obtain ⟨rfl, -⟩ := hhalved'.eq_of_runtime hsome
  exact ⟨_, _, v, hhalved, (hfitted.again hfitted' hv hdistinct).1, hv⟩

end Refitted

/-- The initializer that was moved. -/
theorem Halved.exists_moved (h : t.Halved fresh initializers u)
    (hcreated : initializers.placeholderCreated = true) :
    ∃ whole ∈ t.methods, whole.token = initializers.runtime ∧
      whole.isInitializer precompiledName = true := by
  cases h with
  | kept => exact absurd hcreated (by simp)
  | split hwhole =>
    exact ⟨_, mem_of_initializer? hwhole, rfl, isInitializer_of_initializer? hwhole⟩

/-- The constructor whose body was replaced. -/
theorem Fitted.exists_replaced (h : t.Fitted fresh body constructor u)
    (hcreated : constructor.created = false) :
    ∃ c, t.flagConstructor? = some c ∧ c.token = constructor.token := by
  cases h with
  | replaced hc => exact ⟨_, hc, rfl⟩
  | added => exact absurd hcreated (by simp)

/-- Fitting a type removes no token. -/
theorem Fitted.mem_tokens {token : Token} (h : t.Fitted fresh body constructor u)
    (htoken : token ∈ t.methods.map (·.token)) : token ∈ u.methods.map (·.token) := by
  cases h with
  | replaced =>
    rw [map_token_setMethod]
    exact htoken
  | added =>
    rw [methods_append, List.map_append]
    exact List.mem_append_left _ htoken

/-- What is called like an initializer does not get a new body. -/
theorem Fitted.keeps_initializer (h : t.Fitted fresh body constructor u)
    (hdistinct : (t.methods.map (·.token)).Nodup) (hm : m ∈ t.methods)
    (hname : m.name = precompiledName ∨ m.name = runtimeName) :
    ¬ (constructor.created = false ∧ m.token = constructor.token) := by
  rintro ⟨hcreated, htoken⟩
  obtain ⟨c, hc, hctoken⟩ := h.exists_replaced hcreated
  have hflag := isFlagConstructor_of_flagConstructor? hc
  obtain rfl := eq_of_mem_of_token hdistinct hm (List.mem_of_find?_eq_some hc)
    (htoken.trans hctoken.symm)
  rw [MethodDef.isFlagConstructor, MethodDef.isInstanceConstructor_of_name hname] at hflag
  exact absurd hflag Bool.false_ne_true

namespace Refitted

theorem methods (h : t.Refitted e body u) (hdistinct : (t.methods.map (·.token)).Nodup) :
    u.methods = t.methods.map (e.reworked body) ++ e.newMethods body t := by
  obtain ⟨_, _, v, hhalved, hfitted, hv⟩ := h
  have hvmethods := hhalved.methods hdistinct
  rw [hfitted.methods hv, hvmethods, List.map_append, List.map_map, EquippedType.newMethods,
    List.append_assoc]
  congr 1
  · -- an old method that has been moved is not a constructor
    refine List.map_congr_left fun m hm => ?_
    rw [Function.comp_apply, EquippedType.reworked]
    by_cases hmoved : e.placeholderCreated = true ∧ m.token = e.runtime
    · have hmem : m.moved ∈ v.methods := by
        rw [hvmethods]
        exact List.mem_append_left _ (List.mem_map.mpr ⟨m, hm, if_pos hmoved⟩)
      rw [if_pos hmoved, if_pos hmoved, if_neg (hfitted.keeps_initializer hv hmem (Or.inr rfl))]
    · rw [if_neg hmoved, if_neg hmoved]
  · -- neither is the empty initializer
    congr 1
    refine (List.map_congr_left fun m hm => ?_).trans (List.map_id _)
    have hmem : m ∈ v.methods := by
      rw [hvmethods]
      exact List.mem_append_right _ hm
    have hname : m.name = precompiledName := by
      split at hm
      · obtain ⟨whole, -, rfl⟩ := List.mem_map.mp hm
        rfl
      · exact absurd hm List.not_mem_nil
    rw [if_neg (hfitted.keeps_initializer hv hmem (Or.inl hname))]
    rfl

/-- What happens to a type that is halved and fitted, method by method. -/
theorem changes (h : t.Refitted e body u) (hdistinct : (t.methods.map (·.token)).Nodup) :
    t.ChangedAs e body u := by
  have hshell := h.shell
  have hmethods := h.methods hdistinct
  obtain ⟨_, _, v, hhalved, hfitted, hv⟩ := h
  refine ⟨hshell, hmethods, hhalved.exists_moved, fun hcreated => ?_, ?_⟩
  · obtain ⟨c, hc, htoken⟩ := hfitted.exists_replaced hcreated
    rw [hhalved.flagConstructor? hdistinct] at hc
    exact ⟨c, List.mem_of_find?_eq_some hc, htoken, isFlagConstructor_of_flagConstructor? hc⟩
  · obtain ⟨p, hp, hptoken, -⟩ := hhalved.exists_precompiled
    obtain ⟨r, hr, hrtoken⟩ := hhalved.initializer?_runtime
    obtain ⟨c, hc, hctoken, -⟩ := hfitted.flagConstructor? hv
    simp only [List.forall_mem_cons]
    refine ⟨?_, ?_, ?_, fun _ hnil => absurd hnil List.not_mem_nil⟩
    · exact hfitted.mem_tokens (List.mem_map.mpr ⟨p, hp, hptoken⟩)
    · exact hfitted.mem_tokens (List.mem_map.mpr ⟨r, mem_of_initializer? hr, hrtoken⟩)
    · exact List.mem_map.mpr ⟨c, List.mem_of_find?_eq_some hc, hctoken⟩

end Refitted
end TypeDef
end DualInit
