import DualInit.Proofs.Page.BaseConstructor
import DualInit.Proofs.Page.Dispatch
import DualInit.Proofs.Page.Initializers

/-!
# What becomes of flag constructors

`TypeDef.Fitted` relates a type, its flag constructor and the type that has it with a given body:
the body of a constructor that was there is replaced, and otherwise one is added.
`fitted_of_ends` says that a flag constructor that is ensured fits the type with a dispatch body
between its two initializers, and `ends_ensureFlagConstructor` that nothing but symbols changes
where this was done before.

What is not a flag constructor is found in a fitted type where it was found before.
-/

namespace DualInit

/-- The method with a body. -/
def MethodDef.withBody (body : MethodBody) (m : MethodDef) : MethodDef :=
  { m with body := some body }

/-- A type, its flag constructor, and the type that has it with a body; a constructor that is
added takes the token `fresh`. -/
inductive TypeDef.Fitted (fresh : Token) (body : MethodBody) (t : TypeDef) :
    FlagConstructor → TypeDef → Prop where
  /-- There was a flag constructor, and its body is replaced. -/
  | replaced {c : MethodDef} (hc : t.flagConstructor? = some c) :
      Fitted fresh body t ⟨c.token, false⟩ (t.setMethod (c.withBody body))
  /-- There was none, and one is added. -/
  | added (hnone : t.flagConstructor? = none) :
      Fitted fresh body t ⟨fresh, true⟩
        (t.append { newFlagConstructor body with token := fresh })

/-- The call of a method. -/
def MethodDef.callSite (m : MethodDef) : CallSite :=
  ⟨m.token, UInt8.ofNat m.signature.callPops, if m.signature.returnsValue then 1 else 0⟩

/-- The body of a flag constructor that calls these methods. -/
def dispatchBody (base : Token) (precompiled runtime : MethodDef) : MethodBody :=
  ⟨dispatchSequence base precompiled.callSite runtime.callSite, false⟩

/-- The section in which the symbols of a replaced body are hidden. -/
def Section.hideReplaced (c : FlagConstructor) (s : Section) : Section :=
  if c.created then s else s.hideSymbols c.token

variable {external : Resolver} {s s' : Section} {t u : TypeDef} {m c : MethodDef}
  {type fresh base : Token} {body : MethodBody} {initializers : Initializers}
  {constructor : FlagConstructor}

/-! ## Ensuring the constructor -/

theorem callSite_ok {method : Token} {site : CallSite} :
    callSite s type method = .ok site ↔ ∃ t m, s.typeDef? type = some t ∧
      t.method? method = some m ∧ m.signature.callPops < 256 ∧ site = m.callSite := by
  rw [callSite]
  cases ht : s.typeDef? type with
  | none => simp
  | some t =>
    cases hm : t.method? method with
    | none => simp [hm]
    | some m =>
      obtain rfl := TypeDef.token_of_method? hm
      simp only [Option.bind_some, hm]
      split
      · next hpops =>
        constructor
        · intro h
          exact ⟨t, m, rfl, hm, hpops, (Except.ok.inj h).symm⟩
        · rintro ⟨t', m', ht', hm', -, rfl⟩
          obtain rfl := Option.some.inj ht'
          obtain rfl := Option.some.inj (hm.symm.trans hm')
          rfl
      · next hpops =>
        constructor
        · intro h
          exact absurd h (by simp)
        · rintro ⟨t', m', ht', hm', hpops', rfl⟩
          obtain rfl := Option.some.inj ht'
          obtain rfl := Option.some.inj (hm.symm.trans hm')
          exact absurd hpops' hpops

theorem ends_replaceBody_ok :
    (replaceBody t m body).Ends s (.ok constructor) s' ↔
      ∃ u, s.updateMethod t.token m.token (MethodDef.withBody body) = .ok u ∧
        constructor = ⟨m.token, false⟩ ∧ s' = u.hideSymbols m.token := by
  rw [replaceBody, Edit.ends_tell_bind]
  constructor
  · intro h
    obtain ⟨_, u, hreplace, h⟩ := Edit.ends_bind_ok.mp h
    rw [Edit.ends_change_bind, Edit.ends_pure, Except.ok.injEq] at h
    exact ⟨u, Edit.ends_attemptChange_ok.mp hreplace, h⟩
  · rintro ⟨u, hreplace, h⟩
    refine Edit.ends_bind_ok.mpr ⟨(), u, Edit.ends_attemptChange_ok.mpr hreplace, ?_⟩
    rw [Edit.ends_change_bind, Edit.ends_pure, Except.ok.injEq]
    exact h

theorem ends_addFlagConstructor_ok :
    (addFlagConstructor t body).Ends s (.ok constructor) s' ↔
      ∃ token, s.addMethod t.token (newFlagConstructor body) = .ok (token, s') ∧
        constructor = ⟨token, true⟩ := by
  rw [addFlagConstructor, Edit.ends_tell_bind]
  simp only [Edit.ends_bind_ok, Edit.ends_attempt_ok, Edit.ends_pure, Except.ok.injEq]
  constructor
  · rintro ⟨token, _, hadd, hconstructor, rfl⟩
    exact ⟨token, hadd, hconstructor⟩
  · rintro ⟨token, hadd, hconstructor⟩
    exact ⟨token, s', hadd, hconstructor, rfl⟩

/-- Replacing the body of a method of a type changes nothing else but symbols. -/
theorem ends_replaceBody (hs : s.TokensDistinct) (ht : s.typeDef? t.token = some t)
    (hc : c ∈ t.methods) :
    (replaceBody t c body).Ends s (.ok constructor) s' ↔ constructor = ⟨c.token, false⟩ ∧
      s' = (s.setType (t.setMethod (c.withBody body))).hideSymbols c.token := by
  have hfound := TypeDef.method?_of_mem (hs.of_mem (Section.mem_of_typeDef? ht)) hc
  have hupdate : s.updateMethod t.token c.token (MethodDef.withBody body) =
      .ok (s.setType (t.setMethod (c.withBody body))) :=
    (Section.updateMethod_ok (MethodDef.withBody body) hs fun _ => rfl).mpr
      ⟨t, c, ht, hfound, rfl⟩
  rw [ends_replaceBody_ok]
  constructor
  · rintro ⟨u, hreplace, rfl, rfl⟩
    obtain rfl := Except.ok.inj (hupdate.symm.trans hreplace)
    exact ⟨rfl, rfl⟩
  · rintro ⟨rfl, rfl⟩
    exact ⟨_, hupdate, rfl, rfl⟩

theorem ends_addFlagConstructor (hs : s.TokensDistinct) (ht : s.typeDef? t.token = some t) :
    (addFlagConstructor t body).Ends s (.ok constructor) s' ↔
      t.method? s.nextMethodToken = none ∧ constructor = ⟨s.nextMethodToken, true⟩ ∧
        s' = s.setType (t.append { newFlagConstructor body with token := s.nextMethodToken }) := by
  rw [ends_addFlagConstructor_ok]
  constructor
  · rintro ⟨token, hadd, rfl⟩
    obtain ⟨t', ht', hnone, rfl, rfl⟩ := (Section.addMethod_ok hs).mp hadd
    obtain rfl := Option.some.inj (ht.symm.trans ht')
    exact ⟨hnone, rfl, rfl⟩
  · rintro ⟨hnone, rfl, rfl⟩
    exact ⟨_, (Section.addMethod_ok hs).mpr ⟨t, ht, hnone, rfl, rfl⟩, rfl⟩

/-- The flag constructor of a type, replaced or added, fits the type. -/
theorem fitted_of_match (hs : s.TokensDistinct) (ht : s.typeDef? t.token = some t)
    (h : (match t.flagConstructor? with
      | some existing => replaceBody t existing body
      | none => addFlagConstructor t body).Ends s (.ok constructor) s') :
    ∃ u, t.Fitted s.nextMethodToken body constructor u ∧
      s' = (s.setType u).hideReplaced constructor := by
  cases hc : t.flagConstructor? with
  | some c =>
    rw [hc] at h
    obtain ⟨rfl, rfl⟩ := (ends_replaceBody hs ht (List.mem_of_find?_eq_some hc)).mp h
    exact ⟨_, .replaced hc, rfl⟩
  | none =>
    rw [hc] at h
    obtain ⟨-, rfl, rfl⟩ := (ends_addFlagConstructor hs ht).mp h
    exact ⟨_, .added hc, rfl⟩

/-- A flag constructor that is ensured gets its body replaced or is added, and before that the
section may get references. -/
theorem exists_of_ends_ensureFlagConstructor
    (h : (ensureFlagConstructor external type initializers).Ends s (.ok constructor) s') :
    ∃ refs t body,
      (∃ existing, (replaceBody t existing body).Ends (s.withRefs refs) (.ok constructor) s') ∨
      (addFlagConstructor t body).Ends (s.withRefs refs) (.ok constructor) s' := by
  rw [ensureFlagConstructor] at h
  obtain ⟨base, u, hbase, h⟩ := Edit.ends_bind_ok.mp h
  obtain ⟨_, refs, _, -, rfl, -⟩ := callsBase_of_ends hbase
  rw [Edit.ends_current_bind] at h
  simp only [Edit.ends_bind_ok, Edit.ends_ofExcept] at h
  obtain ⟨_, _, ⟨-, rfl⟩, _, _, ⟨-, rfl⟩, _, _, ⟨-, rfl⟩, h⟩ := h
  split at h
  · exact absurd h (by simp)
  · split at h
    · exact ⟨refs, _, _, Or.inl ⟨_, h⟩⟩
    · exact ⟨refs, _, _, Or.inr h⟩

theorem tokensDistinct_withRefs {refs : List MemberRef} (hs : s.TokensDistinct) :
    (s.withRefs refs).TokensDistinct :=
  ⟨hs.types, hs.methods⟩

/-- A flag constructor that is ensured dispatches between the initializers. -/
theorem fitted_of_ends (hs : s.TokensDistinct)
    (h : (ensureFlagConstructor external type initializers).Ends s (.ok constructor) s') :
    ∃ t u p r refs base signature, s.typeDef? type = some t ∧
      CallsBase external (s.withRefs refs) t base signature ∧ refs.length ≤ 1 ∧
      (∀ r ∈ refs, NewBaseReference s r) ∧
      t.method? initializers.precompiled = some p ∧ p.signature.callPops < 256 ∧
      t.method? initializers.runtime = some r ∧ r.signature.callPops < 256 ∧
      t.Fitted s.nextMethodToken (dispatchBody base p r) constructor u ∧
      s' = ((s.setType u).withRefs refs).hideReplaced constructor := by
  rw [ensureFlagConstructor] at h
  obtain ⟨base, _, hbase, h⟩ := Edit.ends_bind_ok.mp h
  obtain ⟨t, refs, signature, ht, rfl, hcalls, hlength, hnew⟩ := callsBase_of_ends hbase
  obtain rfl := Section.token_of_typeDef? ht
  have ht' : (s.withRefs refs).typeDef? t.token = some t := ht
  rw [Edit.ends_current_bind] at h
  simp only [Edit.ends_bind_ok, Edit.ends_ofExcept, dualDispatchBody_eq, Except.ok.injEq] at h
  obtain ⟨_, _, ⟨hp, rfl⟩, _, _, ⟨hr, rfl⟩, _, _, ⟨rfl, rfl⟩, h⟩ := h
  obtain ⟨_, p, hpt, hp, hppops, rfl⟩ := callSite_ok.mp hp.symm
  obtain ⟨_, r, hrt, hr, hrpops, rfl⟩ := callSite_ok.mp hr.symm
  obtain rfl := Option.some.inj (ht'.symm.trans hpt)
  obtain rfl := Option.some.inj (ht'.symm.trans hrt)
  simp only [ht'] at h
  obtain ⟨u, hfitted, rfl⟩ := fitted_of_match (tokensDistinct_withRefs hs) ht' h
  exact ⟨t, u, p, r, refs, base, signature, ht, hcalls, hlength, hnew, hp, hppops, hr, hrpops,
    hfitted, rfl⟩

/-- Where a flag constructor dispatches between these initializers already, nothing changes but
the symbols of its body. -/
theorem ends_ensureFlagConstructor {p r : MethodDef} {signature : Signature}
    (hs : s.TokensDistinct) (ht : s.typeDef? t.token = some t)
    (hbase : CallsBase external s t base signature) (hp : p ∈ t.methods)
    (hppops : p.signature.callPops < 256) (hr : r ∈ t.methods)
    (hrpops : r.signature.callPops < 256) (hc : t.flagConstructor? = some c)
    (hbody : c.body = some (dispatchBody base p r)) {created : Bool} :
    (ensureFlagConstructor external t.token ⟨p.token, r.token, created⟩).Ends s
      (.ok ⟨c.token, false⟩) (s.hideSymbols c.token) := by
  have hdistinct := hs.of_mem (Section.mem_of_typeDef? ht)
  have hpsite : callSite s t.token p.token = .ok p.callSite :=
    callSite_ok.mpr ⟨t, p, ht, TypeDef.method?_of_mem hdistinct hp, hppops, rfl⟩
  have hrsite : callSite s t.token r.token = .ok r.callSite :=
    callSite_ok.mpr ⟨t, r, ht, TypeDef.method?_of_mem hdistinct hr, hrpops, rfl⟩
  have hmem := List.mem_of_find?_eq_some hc
  have hsame : s.setType (t.setMethod (c.withBody (dispatchBody base p r))) = s := by
    have hwith : c.withBody (dispatchBody base p r) = c := by
      rw [MethodDef.withBody, ← hbody]
    rw [hwith, TypeDef.setMethod_self hdistinct hmem, Section.setType_self hs ht]
  rw [ensureFlagConstructor, (ends_baseConstructor ht hbase).bind_iff, Edit.ends_current_bind]
  simp only [hpsite, hrsite, dualDispatchBody_eq, ht, hc]
  rw [(Edit.ends_ofExcept.mpr ⟨rfl, rfl⟩).bind_iff, (Edit.ends_ofExcept.mpr ⟨rfl, rfl⟩).bind_iff,
    (Edit.ends_ofExcept.mpr ⟨rfl, rfl⟩).bind_iff]
  exact (ends_replaceBody hs ht hmem).mpr ⟨rfl, congrArg (Section.hideSymbols c.token) hsame.symm⟩

/-! ## What a fitted type has -/

theorem MethodDef.shape_of_isFlagConstructor (h : m.isFlagConstructor = true) :
    m.name = constructorName ∧ m.isInstanceConstructor = true ∧ m.signature.params = [.bool] := by
  have h' := Bool.and_eq_true_iff.mp h
  refine ⟨?_, h'.1, beq_iff_eq.mp h'.2⟩
  simp only [isInstanceConstructor, Bool.and_eq_true] at h'
  exact beq_iff_eq.mp h'.1.1.1.1

theorem isFlagConstructor_of_flagConstructor? (h : t.flagConstructor? = some c) :
    c.isFlagConstructor = true := by
  simpa using List.find?_some h

theorem isFlagConstructor_newFlagConstructor :
    MethodDef.isFlagConstructor { newFlagConstructor body with token := fresh } = true := by
  have hflags : MethodFlags.has MethodFlags.instanceConstructor MethodFlags.specialNames = true ∧
      MethodFlags.has MethodFlags.instanceConstructor MethodFlags.static = false := by decide
  simp [MethodDef.isFlagConstructor, MethodDef.isInstanceConstructor, MethodDef.isConstructor,
    MethodDef.hasParams, newFlagConstructor, MethodDef.withParams, Signature.instanceWithParams,
    hflags]

/-- No method with the name of an initializer is a constructor. -/
theorem MethodDef.isInstanceConstructor_of_name
    (h : m.name = precompiledName ∨ m.name = runtimeName) : m.isInstanceConstructor = false := by
  have hnames : precompiledName ≠ constructorName ∧ runtimeName ≠ constructorName := by decide
  have hname : m.name ≠ constructorName := by
    rcases h with h | h
    · exact h ▸ hnames.1
    · exact h ▸ hnames.2
  simp [isInstanceConstructor, hname]

/-- No initializer is a flag constructor. -/
theorem MethodDef.isInitializer_of_isFlagConstructor (h : m.isFlagConstructor = true)
    (name : String) : m.isInitializer name = false := by
  have hparams := (shape_of_isFlagConstructor h).2.2
  simp [isInitializer, isParameterless, Signature.isParameterless, hparams]

namespace TypeDef

theorem Fitted.shell (h : t.Fitted fresh body constructor u) : u.shell = t.shell := by
  cases h <;> rfl

theorem Fitted.token (h : t.Fitted fresh body constructor u) : u.token = t.token := by
  cases h <;> rfl

/-- Fitting a type takes up the new token if it adds a method, and no token otherwise. -/
theorem Fitted.tokens (h : t.Fitted s.nextMethodToken body constructor u) :
    u.methods.map (·.token) =
      t.methods.map (·.token) ++ s.newTokens constructor.created := by
  cases h with
  | replaced => exact map_token_setMethod.trans (List.append_nil _).symm
  | added =>
    rw [methods_append, List.map_append]
    rfl

/-- What no flag constructor has is found in a fitted type where it was found before. -/
theorem Fitted.find? (h : t.Fitted fresh body constructor u)
    (hdistinct : (t.methods.map (·.token)).Nodup) {p : MethodDef → Bool}
    (hp : ∀ m, m.isFlagConstructor = true → p m = false) :
    u.methods.find? p = t.methods.find? p := by
  cases h with
  | @replaced c hc =>
    have hflag := isFlagConstructor_of_flagConstructor? hc
    refine Rows.find?_set_of_false (fun r hr heq => ?_) (hp (c.withBody body) hflag)
    rw [eq_of_mem_of_token hdistinct hr (List.mem_of_find?_eq_some hc) heq]
    exact hp c hflag
  | added =>
    have hnew : [{ newFlagConstructor body with token := fresh }].find? p = none := by
      rw [List.find?_singleton, hp _ isFlagConstructor_newFlagConstructor]
      rfl
    rw [methods_append, List.find?_append, hnew, Option.or_none]

theorem Fitted.initializer? (h : t.Fitted fresh body constructor u)
    (hdistinct : (t.methods.map (·.token)).Nodup) (name : String) :
    u.initializer? name = t.initializer? name :=
  h.find? hdistinct fun _ hm => MethodDef.isInitializer_of_isFlagConstructor hm name

theorem Fitted.hasOneInitializer (h : t.Fitted fresh body constructor u)
    (hdistinct : (t.methods.map (·.token)).Nodup) (hone : t.HasOneInitializer) :
    u.HasOneInitializer := by
  cases h with
  | @replaced c hc =>
    have hcount : (t.setMethod (c.withBody body)).methods.countP (·.isInitializer precompiledName)
        = t.methods.countP (·.isInitializer precompiledName) := by
      refine Rows.countP_set_congr fun r hr heq => ?_
      rw [eq_of_mem_of_token hdistinct hr (List.mem_of_find?_eq_some hc) heq]
      rfl
    exact Nat.le_trans (Nat.le_of_eq hcount) hone
  | added =>
    have hnot : MethodDef.isInitializer precompiledName
        { newFlagConstructor body with token := fresh } = false :=
      MethodDef.isInitializer_of_isFlagConstructor isFlagConstructor_newFlagConstructor _
    rw [HasOneInitializer, methods_append, List.countP_append, List.countP_singleton, hnot]
    exact hone

theorem Fitted.parameterlessConstructor? (h : t.Fitted fresh body constructor u)
    (hdistinct : (t.methods.map (·.token)).Nodup) :
    u.parameterlessConstructor? = t.parameterlessConstructor? := by
  refine h.find? hdistinct fun m hm => ?_
  have hparams := (MethodDef.shape_of_isFlagConstructor hm).2.2
  simp [MethodDef.isParameterless, Signature.isParameterless, hparams]

theorem Halved.parameterlessConstructor? (h : t.Halved fresh initializers u)
    (hdistinct : (t.methods.map (·.token)).Nodup) :
    u.parameterlessConstructor? = t.parameterlessConstructor? := by
  refine h.find? hdistinct fun m hm => ?_
  rw [MethodDef.isInstanceConstructor_of_name hm, Bool.false_and]

theorem Halved.flagConstructor? (h : t.Halved fresh initializers u)
    (hdistinct : (t.methods.map (·.token)).Nodup) :
    u.flagConstructor? = t.flagConstructor? := by
  refine h.find? hdistinct fun m hm => ?_
  rw [MethodDef.isFlagConstructor, MethodDef.isInstanceConstructor_of_name hm, Bool.false_and]

/-- A fitted type has a flag constructor, the one that was found, with the body it was fitted
with. -/
theorem Fitted.flagConstructor? (h : t.Fitted fresh body constructor u)
    (hdistinct : (t.methods.map (·.token)).Nodup) :
    ∃ c, u.flagConstructor? = some c ∧ c.token = constructor.token ∧ c.body = some body := by
  cases h with
  | @replaced c hc =>
    refine ⟨c.withBody body, ?_, rfl, rfl⟩
    have hflag := isFlagConstructor_of_flagConstructor? hc
    have hset : (t.setMethod (c.withBody body)).methods.find? (·.isFlagConstructor) =
        (t.methods.find? (·.isFlagConstructor)).map fun r =>
          if r.token = c.token then c.withBody body else r := by
      refine Rows.find?_set_congr fun r hr heq => ?_
      rw [eq_of_mem_of_token hdistinct hr (List.mem_of_find?_eq_some hc) heq]
      exact hflag.trans hflag.symm
    rw [TypeDef.flagConstructor?] at hc
    rw [TypeDef.flagConstructor?, hset, hc]
    exact congrArg some (if_pos rfl)
  | added hnone =>
    refine ⟨{ newFlagConstructor body with token := fresh }, ?_, rfl, rfl⟩
    rw [TypeDef.flagConstructor?] at hnone
    rw [TypeDef.flagConstructor?, methods_append, List.find?_append, hnone, Option.none_or]
    exact List.find?_cons_of_pos isFlagConstructor_newFlagConstructor

end TypeDef
end DualInit
