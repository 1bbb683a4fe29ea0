import DualInit.Page.Pass
import DualInit.Proofs.Metadata.Names

/-!
# A pass does not look at symbols

Two sections that agree in everything but symbols are the same to a pass: it finds the same in both,
fails in both or in neither, and leaves sections that agree in everything but symbols again.

This is a statement about two runs, and it is proved along the program: `Edit.Alike view m m'` says
that two edits do the same on states that look the same through a view, and each step of the
language of edits has a rule for it.  An edit that is alike to itself sees the state through the
view only (`Edit.Through`).  Two edits are needed where a program goes on with the state that it
has looked at, because then it goes on with two different edits.

* `Alike.bind`, `alike_current`, `alike_replace`, `through_attempt`, `through_change`,
  `Through.each`: the rules.
* `through_equipResources` and `through_equipAssembly`: the pass sees sections and assemblies
  through `withoutSymbols`.

Nothing is assumed of the section: neither that tokens are distinct nor that there is room for more.
-/

namespace DualInit

namespace Edit

variable {σ τ ν ν' α β : Type} {view : σ → ν}

/-- Two edits do the same on states that look the same: they come to the same result and leave
states that look the same. -/
def Alike (view : σ → ν) (m m' : Edit σ α) : Prop :=
  ∀ s s', view s = view s' → (m.run s).result = (m'.run s').result ∧
    view (m.run s).state = view (m'.run s').state

/-- An edit sees the state through a view only. -/
def Through (view : σ → ν) (m : Edit σ α) : Prop :=
  Alike view m m

variable {m m' : Edit σ α} {s s' t : σ}

/-- What has happened to one of two states that look the same happens to the other one. -/
theorem Through.exists_ends (hm : Through view m) (hview : view s = view s') {r : Except Error α}
    (h : m.Ends s r t) : ∃ t', m.Ends s' r t' ∧ view t' = view t := by
  obtain ⟨rfl, rfl⟩ := h
  obtain ⟨hresult, hstate⟩ := hm s s' hview
  exact ⟨_, ⟨hresult.symm, rfl⟩, hstate.symm⟩

/-! ## Rules -/

theorem through_pure (a : α) : Through view (pure a) :=
  fun _ _ hview => ⟨rfl, hview⟩

theorem through_fail (e : Error) : Through view (fail e : Edit σ α) :=
  fun _ _ hview => ⟨rfl, hview⟩

theorem through_tell (e : Event) : Through view (tell e) :=
  fun _ _ hview => ⟨rfl, hview⟩

theorem through_consult (found : Except Error α × List Event) : Through view (consult found) :=
  fun _ _ hview => ⟨rfl, hview⟩

theorem through_ofExcept (x : Except Error α) : Through view (ofExcept x) := by
  cases x with
  | error e => exact through_fail e
  | ok a => exact through_pure a

theorem through_change {g : σ → σ} (hg : ∀ s s', view s = view s' → view (g s) = view (g s')) :
    Through view (change g) :=
  fun s s' hview => ⟨rfl, hg s s' hview⟩

theorem alike_replace (hview : view s = view s') : Alike view (replace s) (replace s') :=
  fun _ _ _ => ⟨rfl, hview⟩

/-- A request whose answer is the same and whose result looks the same on states that do. -/
theorem through_attempt {g : σ → Except Error (α × σ)}
    (hg : ∀ s s', view s = view s' →
      (g s).map (Prod.map id view) = (g s').map (Prod.map id view)) :
    Through view (attempt g) := by
  intro s s' hview
  have h := hg s s' hview
  cases hs : g s with
  | error e =>
    cases hs' : g s' with
    | error e' =>
      rw [hs, hs'] at h
      rw [run_attempt_of_error hs, run_attempt_of_error hs', Except.error.inj h]
      exact ⟨rfl, hview⟩
    | ok x => rw [hs, hs'] at h; cases h
  | ok x =>
    obtain ⟨a, t⟩ := x
    cases hs' : g s' with
    | error e' => rw [hs, hs'] at h; cases h
    | ok x' =>
      obtain ⟨a', t'⟩ := x'
      rw [hs, hs'] at h
      obtain ⟨ha, ht⟩ := Prod.mk.inj (Except.ok.inj h)
      rw [run_attempt_of_ok hs, run_attempt_of_ok hs']
      exact ⟨congrArg Except.ok ha, ht⟩

theorem through_attemptChange {g : σ → Except Error σ}
    (hg : ∀ s s', view s = view s' → (g s).map view = (g s').map view) :
    Through view (attemptChange g) := by
  refine through_attempt fun s s' hview => ?_
  have hmap : ∀ x : Except Error σ, ((do return ((), ← x) : Except Error (Unit × σ)).map
      (Prod.map id view)) = (x.map view).map (Prod.mk ()) := by
    intro x
    cases x <;> rfl
  rw [hmap, hmap, hg s s' hview]

theorem Alike.bind (hm : Alike view m m') {f f' : α → Edit σ β}
    (hf : ∀ a, Alike view (f a) (f' a)) : Alike view (m >>= f) (m' >>= f') := by
  intro s s' hview
  obtain ⟨hresult, hstate⟩ := hm s s' hview
  cases h : (m.run s).result with
  | error e =>
    rw [run_bind_of_error h, run_bind_of_error (hresult.symm.trans h)]
    exact ⟨rfl, hstate⟩
  | ok a =>
    rw [run_bind_of_ok h, run_bind_of_ok (hresult.symm.trans h)]
    exact hf a _ _ hstate

theorem Through.bind (hm : Through view m) {f : α → Edit σ β} (hf : ∀ a, Through view (f a)) :
    Through view (m >>= f) :=
  Alike.bind hm hf

theorem Through.map (hm : Through view m) (g : α → β) : Through view (g <$> m) := by
  rw [map_eq_pure_bind]
  exact hm.bind fun a => through_pure _

/-- Edits that go on with the state, if they go on alike with states that look the same. -/
theorem alike_current {f f' : σ → Edit σ β}
    (hf : ∀ s s', view s = view s' → Alike view (f s) (f' s')) :
    Alike view (current >>= f) (current >>= f') := by
  intro s s' hview
  rw [run_bind_of_ok (m := current) (s := s) rfl, run_bind_of_ok (m := current) (s := s') rfl]
  exact hf s s' hview s s' hview

/-- An edit that goes on with the state, if what it goes on with depends on the view only. -/
theorem through_current {f : σ → Edit σ β} (heq : ∀ s s', view s = view s' → f s = f s')
    (hf : ∀ s, Through view (f s)) : Through view (current >>= f) := by
  refine alike_current fun s s' hview => ?_
  rw [heq s s' hview]
  exact hf s'

/-- Edits of the elements of a list, in lists whose elements look the same. -/
theorem Through.each {view : τ → ν} {m : Edit τ α} (hm : Through view m) :
    Through (List.map view) (Edit.each m) := by
  intro xs
  induction xs with
  | nil =>
    intro ys hview
    rw [List.map_nil, eq_comm, List.map_eq_nil_iff] at hview
    rw [hview]
    exact ⟨rfl, rfl⟩
  | cons x xs ih =>
    intro ys hview
    obtain ⟨y, rest, rfl, hy, hrest⟩ := List.map_eq_cons_iff.mp hview.symm
    obtain ⟨hresult, hstate⟩ := hm x y hy.symm
    obtain ⟨hresults, hstates⟩ := ih rest hrest.symm
    simp only [run] at hresult hstate hresults hstates
    simp only [run, Edit.each]
    rcases hx : m x with ⟨_ | a, x', told⟩ <;> rcases hy' : m y with ⟨_ | b, y', told'⟩ <;>
      rw [hx, hy'] at hresult hstate
    · exact ⟨congrArg Except.error (Except.error.inj hresult), by
        rw [List.map_cons, List.map_cons, hstate, hrest]⟩
    · cases hresult
    · cases hresult
    · obtain rfl := Except.ok.inj hresult
      simp only [List.map_cons, hresults, hstate, hstates, and_self]

/-- An edit of a part of the state, where the part and the rest of it look the same. -/
theorem Through.focus {part : σ → τ} {put : τ → σ → σ} {inner : τ → ν} {outer : σ → ν'}
    {n : Edit τ α} (hn : Through inner n)
    (hpart : ∀ s s', outer s = outer s' → inner (part s) = inner (part s'))
    (hput : ∀ s s' t t', outer s = outer s' → inner t = inner t' →
      outer (put t s) = outer (put t' s')) : Through outer (Edit.focus part put n) := by
  intro s s' hview
  obtain ⟨hresult, hstate⟩ := hn (part s) (part s') (hpart s s' hview)
  exact ⟨hresult, hput s s' _ _ hview hstate⟩

end Edit

/-! ## Sections without symbols -/

namespace Section

variable {s s' : Section} {token : Token}

theorem withoutSymbols_updateType (change : TypeDef → Except Error TypeDef)
    (h : s.withoutSymbols = s'.withoutSymbols) :
    (s.updateType token change).map withoutSymbols =
      (s'.updateType token change).map withoutSymbols := by
  rw [eq_withSymbols h, updateType, updateType]
  cases Rows.updateFirst (·.token == token) change s'.types with
  | none => rfl
  | some types => cases types <;> rfl

theorem withoutSymbols_addMethod (m : MethodDef) (h : s.withoutSymbols = s'.withoutSymbols) :
    (s.addMethod token m).map (Prod.map id withoutSymbols) =
      (s'.addMethod token m).map (Prod.map id withoutSymbols) := by
  have hnext : s.nextMethodToken = s'.nextMethodToken := by
    rw [eq_withSymbols h]
    rfl
  have hupdate := congrArg (Except.map (Prod.mk s'.nextMethodToken))
    (@withoutSymbols_updateType s s' token
      (·.pushMethod { m with token := s'.nextMethodToken }) h)
  have hmap : ∀ x : Except Error Section, ((do return (s'.nextMethodToken, ← x) :
      Except Error (Token × Section)).map (Prod.map id withoutSymbols)) =
        (x.map withoutSymbols).map (Prod.mk s'.nextMethodToken) := by
    intro x
    cases x <;> rfl
  rw [addMethod, addMethod, hnext, hmap, hmap]
  exact hupdate

end Section

/-! ## The pass -/

variable {external : Resolver} {type : Token}

theorem through_splitInitializer (t : TypeDef) (whole : MethodDef) :
    Edit.Through Section.withoutSymbols (splitInitializer t whole) :=
  (Edit.through_tell _).bind fun _ =>
    (Edit.through_attemptChange fun _ _ h => Section.withoutSymbols_updateType _ h).bind fun _ =>
      (Edit.through_attempt fun _ _ h => Section.withoutSymbols_addMethod _ h).bind fun _ =>
        (Edit.through_tell _).bind fun _ => Edit.through_pure _

theorem through_locate (type : Token) : Edit.Through Section.withoutSymbols (locate type) := by
  refine Edit.through_current (fun s s' h => ?_) fun s => ?_
  · rw [Section.eq_withSymbols h]
    rfl
  · cases s.typeDef? type with
    | none => exact Edit.through_fail _
    | some t =>
      cases hwhole : t.initializer? precompiledName with
      | none =>
        simp only [hwhole]
        exact (Edit.through_tell _).bind fun _ => Edit.through_pure _
      | some whole =>
        cases hruntime : t.initializer? runtimeName with
        | some runtime =>
          simp only [hwhole, hruntime]
          exact Edit.through_pure _
        | none =>
          simp only [hwhole, hruntime]
          exact (through_splitInitializer t whole).map _

/-- Referring to a method answers the same token in sections that look the same. -/
theorem Section.importMethod_of_withoutSymbols {s s' : Section}
    (h : s.withoutSymbols = s'.withoutSymbols) (parent : Token) (name : String)
    (signature : Signature) :
    (s.importMethod parent name signature).1 = (s'.importMethod parent name signature).1 ∧
      (s.importMethod parent name signature).2.withoutSymbols =
        (s'.importMethod parent name signature).2.withoutSymbols := by
  rw [eq_withSymbols h, importMethod, importMethod]
  cases s'.memberRefs.find? (·.isTo parent name signature) with
  | none => exact ⟨rfl, rfl⟩
  | some r => exact ⟨rfl, rfl⟩

theorem through_baseConstructor (external : Resolver) (type : Token) :
    Edit.Through Section.withoutSymbols (baseConstructor external type) := by
  refine Edit.alike_current fun s s' h => ?_
  have htypeDef : s.typeDef? = s'.typeDef? := by rw [Section.eq_withSymbols h]; rfl
  have htypeRef : s.typeRef? = s'.typeRef? := by rw [Section.eq_withSymbols h]; rfl
  have htypeName : s.typeName = s'.typeName := funext (Section.typeName_of_withoutSymbols h)
  simp only [htypeDef, htypeRef, htypeName]
  cases s'.typeDef? type with
  | none => exact Edit.through_fail _
  | some t =>
    dsimp only
    cases t.extends? with
    | none => exact Edit.through_fail _
    | some base =>
      dsimp only
      by_cases hdef : base.table = Token.typeDefTable
      · rw [if_pos hdef, if_pos hdef]
        cases (s'.typeDef? base).bind (·.parameterlessConstructor?) with
        | none => exact Edit.through_fail _
        | some constructor => exact Edit.through_pure _
      · rw [if_neg hdef, if_neg hdef]
        by_cases href : base.table = Token.typeRefTable
        · rw [if_pos href, if_pos href]
          cases s'.typeRef? base with
          | none => exact Edit.through_fail _
          | some reference =>
            refine Edit.Alike.bind (Edit.through_consult _) fun found => ?_
            cases found.bind (·.parameterlessConstructor?) with
            | none => exact Edit.through_fail _
            | some constructor =>
              obtain ⟨htoken, hnext⟩ := Section.importMethod_of_withoutSymbols h base
                constructorName constructor.signature
              simp only [htoken]
              exact (Edit.alike_replace hnext).bind fun _ =>
                (Edit.through_tell _).bind fun _ => Edit.through_pure _
        · rw [if_neg href, if_neg href]
          split <;> exact Edit.through_fail _

theorem through_replaceBody (t : TypeDef) (existing : MethodDef) (body : MethodBody) :
    Edit.Through Section.withoutSymbols (replaceBody t existing body) :=
  (Edit.through_tell _).bind fun _ =>
    (Edit.through_attemptChange fun _ _ h => Section.withoutSymbols_updateType _ h).bind fun _ =>
      -- hiding symbols is all that is done to them
      (Edit.through_change fun _ _ h => h).bind fun _ => Edit.through_pure _

theorem through_addFlagConstructor (t : TypeDef) (body : MethodBody) :
    Edit.Through Section.withoutSymbols (addFlagConstructor t body) :=
  (Edit.through_tell _).bind fun _ =>
    (Edit.through_attempt fun _ _ h => Section.withoutSymbols_addMethod _ h).bind fun _ =>
      Edit.through_pure _

theorem through_ensureFlagConstructor (external : Resolver) (type : Token)
    (initializers : Initializers) :
    Edit.Through Section.withoutSymbols (ensureFlagConstructor external type initializers) := by
  refine (through_baseConstructor external type).bind fun base => ?_
  refine Edit.through_current (fun s s' h => by rw [Section.eq_withSymbols h]; rfl) fun s => ?_
  refine (Edit.through_ofExcept _).bind fun precompiled => ?_
  refine (Edit.through_ofExcept _).bind fun runtime => ?_
  refine (Edit.through_ofExcept _).bind fun instructions => ?_
  cases s.typeDef? type with
  | none => exact Edit.through_fail _
  | some t =>
    dsimp only
    cases t.flagConstructor? with
    | none => exact through_addFlagConstructor t _
    | some existing => exact through_replaceBody t existing _

theorem through_equipType (external : Resolver) (className : String) (type : Token)
    (initializers : Initializers) :
    Edit.Through Section.withoutSymbols (equipType external className type initializers) := by
  refine (through_ensureFlagConstructor external type initializers).bind fun constructor => ?_
  refine Edit.through_current (fun s s' h => ?_) fun s =>
    (Edit.through_tell _).bind fun _ => Edit.through_pure _
  have hname : s.name = s'.name := by rw [Section.eq_withSymbols h]
  simp only [hname, Section.typeName_of_withoutSymbols h]

theorem through_describedClass (r : Resource) :
    Edit.Through Section.withoutSymbols (describedClass r) := by
  rw [describedClass]
  cases Descriptor.read r with
  | ok className => exact Edit.through_pure _
  | error e => exact (Edit.through_tell _).bind fun _ => Edit.through_pure _

theorem through_findTarget (className : String) :
    Edit.Through Section.withoutSymbols (findTarget className) := by
  refine Edit.through_current (fun s s' h => ?_) fun s => ?_
  · have hname : s.name = s'.name := by rw [Section.eq_withSymbols h]
    simp only [hname, Section.findType_of_withoutSymbols h]
  · cases s.findType className with
    | some t => exact Edit.through_pure _
    | none => exact (Edit.through_tell _).bind fun _ => Edit.through_pure _

theorem through_equipResource (external : Resolver) (r : Resource) :
    Edit.Through Section.withoutSymbols (equipResource external r) := by
  refine Edit.through_current (fun s s' h => by rw [Section.eq_withSymbols h]) fun s => ?_
  refine (through_describedClass r).bind fun className => ?_
  cases className with
  | none => exact (Edit.through_tell _).bind fun _ => Edit.through_pure _
  | some className =>
    refine (Edit.through_tell _).bind fun _ => (through_findTarget className).bind fun target => ?_
    cases target with
    | none => exact (Edit.through_tell _).bind fun _ => Edit.through_pure _
    | some type =>
      refine (through_locate type).bind fun found => ?_
      cases found with
      | none => exact (Edit.through_tell _).bind fun _ => Edit.through_pure _
      | some initializers => exact through_equipType external className type initializers

theorem through_equipResources (external : Resolver) (resources : List Resource) :
    Edit.Through Section.withoutSymbols (equipResources external resources) := by
  induction resources with
  | nil => exact Edit.through_pure _
  | cons r rest ih =>
    exact (through_equipResource external r).bind fun _ => ih.bind fun _ => Edit.through_pure _

theorem through_equipSection (external : Resolver) :
    Edit.Through Section.withoutSymbols (equipSection external) :=
  Edit.through_current (fun s s' h => by rw [Section.eq_withSymbols h]) fun s =>
    (Edit.through_tell _).bind fun _ => through_equipResources external s.resources

/-- Assemblies that agree in everything but symbols are the same to a pass. -/
theorem through_equipAssembly (external : Resolver) :
    Edit.Through Assembly.withoutSymbols (equipAssembly external) := by
  refine (through_equipSection external).each.focus (fun a b h => congrArg Assembly.sections h) ?_
  intro a b sections sections' hview hsections
  obtain ⟨hname, -⟩ := Assembly.mk.inj hview
  show Assembly.mk a.name _ = Assembly.mk b.name _
  rw [hname, hsections]

end DualInit
