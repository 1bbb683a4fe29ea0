import DualInit.Proofs.Page.Settled
import DualInit.Proofs.Symbol.Table

/-!
# What a pass does to symbols

While it equips types, a pass does one thing to symbols: where it replaces the body of a flag
constructor, it hides what they say about the old one.  `Section.Follows` says so of two sections,
together with what becomes of the tokens of methods: none is lost, and those of new methods are in
use.  Steps of an edit compose (`Section.Follows.trans`), so that one rule for each of the requests
that change a section gives `follows_of_ends_equipResources` for a whole pass.

This needs neither distinct tokens nor numbers that are left.  Where both are given, the new methods
are exactly those that the findings say were created (`ResourceSteps.tokens_perm`), and the
initializers for run time are those that they say (`ResourceSteps.exists_runtime`).
-/

namespace DualInit

/-- The method whose body was replaced for a resource. -/
def Finding.replaced : Finding → List Token
  | .skipped _ => []
  | .equipped e => if e.constructorCreated then [] else [e.flagConstructor]

/-- The methods that were created for a resource. -/
def Finding.created : Finding → List Token
  | .skipped _ => []
  | .equipped e =>
    (if e.placeholderCreated then [e.precompiled] else []) ++
      if e.constructorCreated then [e.flagConstructor] else []

/-- A section comes from another one by changes of its methods: the symbols of some of them are
hidden, none is lost, and some are there. -/
structure Section.Follows (hidden created : List Token) (s s' : Section) : Prop where
  symbols : s'.symbols = s.symbols.map (·.hideAll hidden)
  kept : ∀ token ∈ s.methods.map (·.token), token ∈ s'.methods.map (·.token)
  created : ∀ token ∈ created, token ∈ s'.methods.map (·.token)

variable {external : Resolver} {s s' s'' : Section} {token type : Token}
  {hidden hidden' created created' : List Token}

/-! ## Changes of sections -/

namespace Section

namespace Follows

theorem refl (s : Section) : s.Follows [] [] s where
  symbols := Option.map_id'.symm
  kept := fun _ h => h
  created := fun _ h => absurd h List.not_mem_nil

theorem trans (h : s.Follows hidden created s') (h' : s'.Follows hidden' created' s'') :
    s.Follows (hidden ++ hidden') (created ++ created') s'' where
  symbols := by
    rw [h'.symbols, h.symbols, Option.map_map]
    exact congrArg (Option.map · s.symbols)
      (funext fun table => (table.hideAll_append hidden hidden').symm)
  kept := fun token htoken => h'.kept token (h.kept token htoken)
  created := by
    intro token htoken
    rcases List.mem_append.mp htoken with htoken | htoken
    · exact h'.kept token (h.created token htoken)
    · exact h'.created token htoken

end Follows

/-- Hiding symbols changes nothing else. -/
theorem follows_hideSymbols (s : Section) (method : Token) :
    s.Follows [method] [] (s.hideSymbols method) where
  symbols := rfl
  kept := fun _ h => h
  created := fun _ h => absurd h List.not_mem_nil

theorem follows_withRefs (s : Section) (refs : List MemberRef) :
    s.Follows [] [] (s.withRefs refs) where
  symbols := Option.map_id'.symm
  kept := fun _ h => h
  created := fun _ h => absurd h List.not_mem_nil

/-- A change of one type that gives it new methods, and loses none, does so to the section. -/
theorem follows_of_updateType {change : TypeDef → Except Error TypeDef}
    (hchange : ∀ t u, change t = .ok u →
      u.methods.map (·.token) = t.methods.map (·.token) ++ created)
    (h : s.updateType token change = .ok s') : s.Follows [] created s' := by
  have hperm := tokens_of_updateType hchange h
  obtain ⟨types, -, rfl⟩ := updateType_eq_ok.mp h
  exact ⟨Option.map_id'.symm, fun _ hmethod => hperm.mem_iff.mpr (List.mem_append_left _ hmethod),
    fun _ hmethod => hperm.mem_iff.mpr (List.mem_append_right _ hmethod)⟩

theorem follows_of_updateMethod {method : Token} (change : MethodDef → MethodDef)
    (hchange : ∀ m, (change m).token = m.token)
    (h : s.updateMethod token method change = .ok s') : s.Follows [] [] s' := by
  refine follows_of_updateType (fun t u htu => ?_) h
  rw [List.append_nil]
  exact TypeDef.map_of_updateMethod hchange htu

/-- A method that is added has the token that is answered. -/
theorem follows_of_addMethod {method : Token} {m : MethodDef}
    (h : s.addMethod token m = .ok (method, s')) : s.Follows [] [method] s' := by
  unfold addMethod at h
  obtain ⟨_, hupdate, h⟩ := except_bind_ok.mp h
  cases h
  refine follows_of_updateType (fun t u htu => ?_) hupdate
  rw [(TypeDef.pushMethod_ok.mp htu).2, TypeDef.methods_append, List.map_append]
  rfl

end Section

/-! ## The pass -/

variable {initializers : Initializers} {constructor : FlagConstructor} {t : TypeDef}
  {m : MethodDef} {body : MethodBody} {finding : Finding} {r : Resource}

theorem follows_of_ends_splitInitializer
    (h : (splitInitializer t m).Ends s (.ok initializers) s') :
    initializers.placeholderCreated = true ∧ s.Follows [] [initializers.precompiled] s' := by
  obtain ⟨u, token, hmove, hadd, rfl⟩ := ends_splitInitializer_ok.mp h
  exact ⟨rfl, (Section.follows_of_updateMethod MethodDef.moved (fun _ => rfl) hmove).trans
    (Section.follows_of_addMethod hadd)⟩

theorem follows_of_ends_locate
    (h : (locate type).Ends s (.ok (some initializers)) s') :
    s.Follows [] (if initializers.placeholderCreated then [initializers.precompiled] else []) s' := by
  obtain ⟨t, whole, -, -, ⟨runtime, -, rfl, rfl⟩ | ⟨-, hsplit⟩⟩ := ends_locate_some.mp h
  · exact .refl s'
  · obtain ⟨hcreated, hfollows⟩ := follows_of_ends_splitInitializer hsplit
    rw [if_pos hcreated]
    exact hfollows

theorem follows_of_ends_ensureFlagConstructor
    (h : (ensureFlagConstructor external type initializers).Ends s (.ok constructor) s') :
    s.Follows (if constructor.created then [] else [constructor.token])
      (if constructor.created then [constructor.token] else []) s' := by
  obtain ⟨refs, t, body, ⟨existing, hreplace⟩ | hadd⟩ := exists_of_ends_ensureFlagConstructor h
  · obtain ⟨u, hupdate, rfl, rfl⟩ := ends_replaceBody_ok.mp hreplace
    have hfollows := Section.follows_of_updateMethod (MethodDef.withBody body) (fun _ => rfl) hupdate
    exact (s.follows_withRefs refs).trans (hfollows.trans (u.follows_hideSymbols existing.token))
  · obtain ⟨token, hadded, rfl⟩ := ends_addFlagConstructor_ok.mp hadd
    exact (s.follows_withRefs refs).trans (Section.follows_of_addMethod hadded)

theorem follows_of_ends_equipType {className : String}
    (h : (equipType external className type initializers).Ends s (.ok finding) s') :
    ∃ e, finding = .equipped e ∧ e.placeholderCreated = initializers.placeholderCreated ∧
      e.precompiled = initializers.precompiled ∧
      s.Follows finding.replaced (if e.constructorCreated then [e.flagConstructor] else []) s' := by
  obtain ⟨constructor, hensure, rfl⟩ := ends_equipType_ok.mp h
  exact ⟨_, rfl, rfl, rfl, follows_of_ends_ensureFlagConstructor hensure⟩

/-- What a pass over one resource does to symbols and tokens. -/
theorem follows_of_ends_equipResource
    (h : (equipResource external r).Ends s (.ok finding) s') :
    s.Follows finding.replaced finding.created s' := by
  rcases outcomes_of_ends_equipResource h with
    ⟨-, rfl, rfl⟩ | ⟨className, -, ⟨-, rfl, rfl⟩ | ⟨t, -, hlocated⟩⟩
  · exact .refl s'
  · exact .refl s'
  · rcases hlocated with ⟨hlocate, rfl⟩ | ⟨initializers, u, hlocate, hequip⟩
    · rw [eq_of_ends_locate_none hlocate]
      exact .refl s
    · obtain ⟨e, rfl, hcreated, hprecompiled, hequip⟩ := follows_of_ends_equipType hequip
      have hfollows := (follows_of_ends_locate hlocate).trans hequip
      rw [← hcreated, ← hprecompiled] at hfollows
      exact hfollows

/-- What a pass over several resources does to symbols and tokens. -/
theorem follows_of_ends_equipResources {resources : List Resource} {findings : List Finding}
    (h : (equipResources external resources).Ends s (.ok findings) s') :
    s.Follows (findings.flatMap (·.replaced)) (findings.flatMap (·.created)) s' := by
  induction resources generalizing s findings with
  | nil =>
    rw [equipResources, Edit.ends_pure, Except.ok.injEq] at h
    rw [h.1, h.2]
    exact .refl s
  | cons r rest ih =>
    obtain ⟨finding, findings', t, hfirst, hrest, rfl⟩ := ends_equipResources_cons.mp h
    exact (follows_of_ends_equipResource hfirst).trans (ih hrest)

theorem ResourceSteps.follows {resources : List Resource} {findings : List Finding}
    (h : ResourceSteps external s resources findings s') :
    s.Follows (findings.flatMap (·.replaced)) (findings.flatMap (·.created)) s' := by
  induction h with
  | nil s => exact .refl s
  | cons _ hends _ _ _ ih => exact (follows_of_ends_equipResource hends).trans ih

/-! ## New methods -/

theorem TypeDef.Halved.newTokens {u : TypeDef} (h : t.Halved s.nextMethodToken initializers u) :
    s.newTokens initializers.placeholderCreated =
      if initializers.placeholderCreated then [initializers.precompiled] else [] := by
  cases h <;> rfl

theorem TypeDef.Fitted.newTokens {u : TypeDef}
    (h : t.Fitted s.nextMethodToken body constructor u) :
    s.newTokens constructor.created =
      if constructor.created then [constructor.token] else [] := by
  cases h <;> rfl

variable {resources : List Resource} {findings : List Finding}

/-- A step adds the methods that were created. -/
theorem ResourceStep.tokens_perm (hs : s.TokensDistinct)
    (h : ResourceStep external s r finding s') :
    (s'.methods.map (·.token)).Perm (s.methods.map (·.token) ++ finding.created) := by
  cases h with
  | notXaml | typeNotFound | noInitializer =>
    rw [Finding.created, List.append_nil]
  | equipped q =>
    have hbefore : s.typeDef? q.halves.token = some q.before := by
      rw [q.token_halves]
      exact q.before_found
    have hhalves := Section.tokens_setType _ hs hbefore q.halved.tokens
    have hafter := Section.tokens_setType _ q.tokensDistinct q.after_replaces_halves q.fitted.tokens
    rw [q.halved.newTokens] at hhalves
    rw [q.fitted.newTokens] at hafter
    have hboth := hafter.trans (hhalves.append_right _)
    rw [List.append_assoc] at hboth
    rw [q.methods_result]
    exact hboth

/-- A pass adds the methods that were created. -/
theorem ResourceSteps.tokens_perm (h : ResourceSteps external s resources findings s') :
    (s'.methods.map (·.token)).Perm
      (s.methods.map (·.token) ++ findings.flatMap (·.created)) := by
  induction h with
  | nil => rw [List.flatMap_nil, List.append_nil]
  | cons hs _ hstep _ _ ih =>
    rw [List.flatMap_cons, ← List.append_assoc]
    exact ih.trans ((hstep.tokens_perm hs).append_right _)

/-- What was created was not there before. -/
theorem ResourceSteps.created_notMem (hs : s.TokensDistinct)
    (h : ResourceSteps external s resources findings s')
    (htoken : token ∈ findings.flatMap (·.created)) : token ∉ s.methods.map (·.token) := by
  have hnodup := h.tokens_perm.nodup_iff.mp (h.tokensDistinct hs).methods
  exact fun hold => List.disjoint_of_nodup_append hnodup hold htoken

/-! ## Initializers for run time -/

theorem EquippedType.token_reworked (e : EquippedType) (body : MethodBody) (m : MethodDef) :
    (e.reworked body m).token = m.token := by
  unfold reworked
  split
  · rfl
  · split <;> rfl

/-- What is called like an initializer for run time keeps its name. -/
theorem EquippedType.name_reworked (e : EquippedType) (body : MethodBody)
    (hname : m.name = runtimeName) : (e.reworked body m).name = runtimeName := by
  unfold reworked
  split
  · rfl
  · split <;> exact hname

theorem ResourceStep.keeps_runtimeName (hs : s.TokensDistinct)
    (h : ResourceStep external s r finding s') (hm : m ∈ s.methods) (hname : m.name = runtimeName) :
    ∃ m' ∈ s'.methods, m'.token = m.token ∧ m'.name = runtimeName := by
  obtain ⟨t, ht, hmt⟩ := List.mem_flatMap.mp hm
  have hfound := Section.typeDef?_of_mem hs ht
  have hreworked := h.reworked hs
  obtain ⟨u, hu, -⟩ := hreworked.exists_typeDef? hfound
  have hmem := Section.mem_of_typeDef? hu
  rcases hreworked.types t.token t u hfound hu with rfl | ⟨e, body, -, -, hrefitted⟩
  · exact ⟨m, List.mem_flatMap.mpr ⟨_, hmem, hmt⟩, rfl, hname⟩
  · have hmu : e.reworked body m ∈ u.methods := by
      rw [hrefitted.methods (hs.of_mem ht)]
      exact List.mem_append_left _ (List.mem_map_of_mem hmt)
    exact ⟨_, List.mem_flatMap.mpr ⟨u, hmem, hmu⟩, e.token_reworked body m,
      e.name_reworked body hname⟩

theorem ResourceSteps.keeps_runtimeName (h : ResourceSteps external s resources findings s')
    (hm : m ∈ s.methods) (hname : m.name = runtimeName) :
    ∃ m' ∈ s'.methods, m'.token = m.token ∧ m'.name = runtimeName := by
  induction h generalizing m with
  | nil => exact ⟨m, hm, rfl, hname⟩
  | cons hs _ hstep _ _ ih =>
    obtain ⟨m', hm', htoken, hname'⟩ := hstep.keeps_runtimeName hs hm hname
    obtain ⟨m'', hm'', htoken', hname''⟩ := ih hm' hname'
    exact ⟨m'', hm'', htoken'.trans htoken, hname''⟩

/-- The initializer for run time that a step finds has the name of one. -/
theorem ResourceStep.exists_runtime {e : EquippedType}
    (h : ResourceStep external s r (.equipped e) s') :
    ∃ m ∈ s'.methods, m.token = e.runtime ∧ m.name = runtimeName := by
  cases h with
  | equipped q =>
    obtain ⟨m, hm, htoken⟩ := q.halved.initializer?_runtime
    have hafter := (q.fitted.initializer? q.halves_distinct runtimeName).trans hm
    have hmem := Section.mem_of_typeDef? q.typeDef?_result_self
    exact ⟨m, List.mem_flatMap.mpr ⟨q.after, hmem, mem_of_initializer? hafter⟩, htoken,
      (MethodDef.isInitializer_iff.mp (isInitializer_of_initializer? hm)).1⟩

/-- The initializers for run time that a pass finds have the name of one when it is over. -/
theorem ResourceSteps.exists_runtime {e : EquippedType}
    (h : ResourceSteps external s resources findings s') (he : .equipped e ∈ findings) :
    ∃ m ∈ s'.methods, m.token = e.runtime ∧ m.name = runtimeName := by
  induction h with
  | nil => exact absurd he List.not_mem_nil
  | cons hs _ hstep _ hrest ih =>
    rcases List.mem_cons.mp he with rfl | he
    · obtain ⟨m, hm, htoken, hname⟩ := hstep.exists_runtime
      obtain ⟨m', hm', htoken', hname'⟩ := hrest.keeps_runtimeName hm hname
      exact ⟨m', hm', htoken'.trans htoken, hname'⟩
    · exact ih he

end DualInit
