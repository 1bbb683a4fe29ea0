import DualInit.Proofs.Metadata.FullNames
import DualInit.Proofs.Page.FlagConstructor
import DualInit.Proofs.Page.Stages

/-!
# What becomes of each resource

A pass looks at a resource in a section that it has changed for earlier ones: initializers were
renamed, methods were added, and the next resource may describe the same class again.  Still, what
becomes of a resource is decided by the section as it was to begin with.

* `Section.account` reads it off the section: the resource describes no class, the section does not
  define the class, the class has no initializer, or the class gets equipped.
* `Section.SameClasses` is what the pass keeps: the name of the section, its outline, and which of
  its types have an initializer.  Splitting an initializer takes it away under its old name and
  puts another one there; no other request touches initializers.
* `account_of_ends_equipResource` is one step and `accounts_of_ends_equipResources` a whole pass.

Types need tokens of their own, in the table of types; methods do not, and numbers may run out.
-/

namespace DualInit

/-! ## Accounts -/

/-- Whether a type has an initializer of the name that a page comes with. -/
def TypeDef.hasInitializer (t : TypeDef) : Bool :=
  t.methods.any (·.isInitializer precompiledName)

/-- What becomes of a resource. -/
inductive Account where
  /-- It is passed over. -/
  | skipped (skip : Skip)
  /-- The class it names, of a section, gets equipped. -/
  | equipped (sectionName typeName : String)
deriving DecidableEq, Repr

/-- What has become of a resource for which something was found. -/
def Finding.account : Finding → Account
  | .skipped skip => .skipped skip
  | .equipped e => .equipped e.sectionName e.typeName

/-- What becomes of a resource, by the classes of a section. -/
def Section.account (s : Section) (r : Resource) : Account :=
  match classify r with
  | none => .skipped ⟨s.name, r.name, none, .notXaml⟩
  | some className =>
    match s.findType className with
    | none => .skipped ⟨s.name, r.name, some className, .typeNotFound⟩
    | some t =>
      if t.hasInitializer then .equipped s.name className
      else .skipped ⟨s.name, r.name, some className, .noInitializer⟩

/-- The types of a section have tokens of their own, in the table of types. -/
structure Section.NumbersTypes (s : Section) : Prop where
  distinct : (s.types.map (·.token)).Nodup
  table : ∀ t ∈ s.types, t.token.table = Token.typeDefTable

/-- Two sections have the same name and the same classes, which have initializers in both or in
neither. -/
structure Section.SameClasses (s s' : Section) : Prop where
  name : s'.name = s.name
  outline : s'.outline = s.outline
  initializers : ∀ token, (s'.typeDef? token).map TypeDef.hasInitializer =
    (s.typeDef? token).map TypeDef.hasInitializer

variable {external : Resolver} {s s' s'' : Section} {r : Resource} {type : Token}
  {t u : TypeDef} {m : MethodDef}

/-! ## Initializers of types -/

namespace TypeDef

theorem hasInitializer_of_initializer? (h : t.initializer? precompiledName = some m) :
    t.hasInitializer = true :=
  List.any_eq_true.mpr ⟨m, mem_of_initializer? h, isInitializer_of_initializer? h⟩

theorem hasInitializer_of_initializer?_none (h : t.initializer? precompiledName = none) :
    t.hasInitializer = false :=
  List.any_eq_false.mpr (List.find?_eq_none.mp h)

theorem hasInitializer_append :
    (t.append m).hasInitializer = (t.hasInitializer || m.isInitializer precompiledName) := by
  rw [hasInitializer, methods_append, List.any_append, List.any_cons, List.any_nil, Bool.or_false]
  rfl

/-- A change of a method that leaves its name and its signature leaves it an initializer or none. -/
theorem hasInitializer_of_updateMethod {token : Token} {change : MethodDef → MethodDef}
    (hchange : ∀ m, (change m).isInitializer precompiledName = m.isInitializer precompiledName)
    (h : t.updateMethod token change = .ok u) : u.hasInitializer = t.hasInitializer := by
  have hany := congrArg (List.any · id) (map_of_updateMethod hchange h)
  rwa [List.any_map, List.any_map] at hany

end TypeDef

/-! ## Sections with the same classes -/

namespace Section

theorem NumbersTypes.typeDef?_of_findType {fullName : String} (hs : s.NumbersTypes)
    (h : s.findType fullName = some t) : s.typeDef? t.token = some t :=
  Rows.find?_of_mem hs.distinct (mem_of_findType h)

namespace SameClasses

theorem refl (s : Section) : s.SameClasses s :=
  ⟨rfl, rfl, fun _ => rfl⟩

theorem trans (h : s.SameClasses s') (h' : s'.SameClasses s'') : s.SameClasses s'' :=
  ⟨h'.name.trans h.name, h'.outline.trans h.outline,
    fun token => (h'.initializers token).trans (h.initializers token)⟩

theorem shells (h : s.SameClasses s') : s'.types.map TypeDef.shell = s.types.map TypeDef.shell :=
  congrArg Section.types h.outline

theorem tokens (h : s.SameClasses s') : s'.types.map (·.token) = s.types.map (·.token) := by
  have htokens := congrArg (List.map TypeDef.token) h.shells
  rwa [List.map_map, List.map_map] at htokens

theorem numbersTypes (h : s.SameClasses s') (hs : s.NumbersTypes) : s'.NumbersTypes where
  distinct := by
    rw [h.tokens]
    exact hs.distinct
  table := by
    intro t ht
    have hold : t.token ∈ s.types.map (·.token) := h.tokens ▸ List.mem_map_of_mem ht
    obtain ⟨u, hu, htoken⟩ := List.mem_map.mp hold
    rw [← htoken]
    exact hs.table u hu

/-- Where the same types have initializers, the same becomes of each resource. -/
theorem account (h : s.SameClasses s') (hs : s.NumbersTypes) (r : Resource) :
    s'.account r = s.account r := by
  unfold Section.account
  rw [h.name]
  cases classify r with
  | none => rfl
  | some className =>
    have hfind := shell_findType_congr h.outline className
    cases ht' : s'.findType className with
    | none =>
      rw [ht', Option.map_none, eq_comm, Option.map_eq_none_iff] at hfind
      simp only [ht', hfind]
    | some t' =>
      rw [ht', Option.map_some, eq_comm, Option.map_eq_some_iff] at hfind
      obtain ⟨t, ht, hshell⟩ := hfind
      have htoken : t.token = t'.token := TypeDef.token_of_shell hshell
      have hinitializer := h.initializers t.token
      rw [hs.typeDef?_of_findType ht, htoken, (h.numbersTypes hs).typeDef?_of_findType ht',
        Option.map_some, Option.map_some, Option.some.injEq] at hinitializer
      simp only [ht, ht', hinitializer]

end SameClasses

theorem sameClasses_withRefs (s : Section) (refs : List MemberRef) :
    s.SameClasses (s.withRefs refs) :=
  ⟨rfl, rfl, fun _ => rfl⟩

theorem sameClasses_hideSymbols (s : Section) (method : Token) :
    s.SameClasses (s.hideSymbols method) :=
  ⟨rfl, rfl, fun _ => rfl⟩

/-- A change of one type that leaves its shell and leaves it an initializer or none leaves the
classes. -/
theorem sameClasses_of_updateType {change : TypeDef → Except Error TypeDef}
    (hshell : ∀ t u, change t = .ok u → u.shell = t.shell)
    (hinitializer : ∀ t u, change t = .ok u → u.hasInitializer = t.hasInitializer)
    (h : s.updateType type change = .ok s') : s.SameClasses s' := by
  obtain ⟨t, u, ht, htu, hfound, hshells, hrefs, hname⟩ := exists_of_updateType hshell h
  refine ⟨hname, by rw [outline, outline, hshells, hrefs], fun token => ?_⟩
  rw [hfound]
  split
  · next htoken => rw [htoken, ht, Option.map_some, Option.map_some, hinitializer t u htu]
  · rfl

theorem sameClasses_of_updateMethod {method : Token} (change : MethodDef → MethodDef)
    (hchange : ∀ m, (change m).isInitializer precompiledName = m.isInitializer precompiledName)
    (h : s.updateMethod type method change = .ok s') : s.SameClasses s' :=
  sameClasses_of_updateType (fun _ _ => TypeDef.shell_of_updateMethod)
    (fun _ _ => TypeDef.hasInitializer_of_updateMethod hchange) h

/-- A method that is no initializer can be added. -/
theorem sameClasses_of_addMethod {method : Token} (hm : m.isInitializer precompiledName = false)
    (h : s.addMethod type m = .ok (method, s')) : s.SameClasses s' := by
  obtain ⟨_, hpush, hadded⟩ := except_bind_ok.mp h
  cases hadded
  refine sameClasses_of_updateType (fun _ _ => TypeDef.shell_of_pushMethod) (fun t u hu => ?_) hpush
  rw [(TypeDef.pushMethod_ok.mp hu).2, TypeDef.hasInitializer_append]
  exact (congrArg (t.hasInitializer || ·) hm).trans (Bool.or_false _)

end Section

/-! ## The pass -/

variable {initializers : Initializers} {constructor : FlagConstructor} {className : String}
  {finding : Finding}

/-- The initializer that is moved away leaves the place to the one that is added. -/
theorem sameClasses_of_ends_splitInitializer (ht : s.typeDef? t.token = some t)
    (hinitializer : t.hasInitializer = true)
    (h : (splitInitializer t m).Ends s (.ok initializers) s') : s.SameClasses s' := by
  obtain ⟨v, method, hmove, hadd, -⟩ := ends_splitInitializer_ok.mp h
  obtain ⟨-, w, -, -, hfound, hshells, hrefs, hname⟩ :=
    Section.exists_of_updateType (fun _ _ => TypeDef.shell_of_updateMethod) hmove
  obtain ⟨_, hpush, hadded⟩ := except_bind_ok.mp hadd
  cases hadded
  obtain ⟨w', u, -, hu, hfound', hshells', hrefs', hname'⟩ :=
    Section.exists_of_updateType (fun _ _ => TypeDef.shell_of_pushMethod) hpush
  refine ⟨hname'.trans hname, ?_, fun token => ?_⟩
  · rw [Section.outline, Section.outline, hshells', hshells, hrefs', hrefs]
  · rw [hfound', hfound]
    split
    · next htoken =>
      have hplaceholder : u.hasInitializer = true := by
        rw [(TypeDef.pushMethod_ok.mp hu).2, TypeDef.hasInitializer_append, Bool.or_eq_true]
        exact Or.inr (MethodDef.isInitializer_iff.mpr ⟨rfl, rfl⟩)
      rw [htoken, ht, Option.map_some, Option.map_some, hinitializer, hplaceholder]
    · rfl

theorem sameClasses_of_ends_locate
    (h : (locate type).Ends s (.ok (some initializers)) s') : s.SameClasses s' := by
  obtain ⟨t, whole, ht, hwhole, ⟨runtime, -, -, rfl⟩ | ⟨-, hsplit⟩⟩ := ends_locate_some.mp h
  · exact .refl s'
  · obtain rfl := Section.token_of_typeDef? ht
    exact sameClasses_of_ends_splitInitializer ht
      (TypeDef.hasInitializer_of_initializer? hwhole) hsplit

theorem sameClasses_of_ends_ensureFlagConstructor
    (h : (ensureFlagConstructor external type initializers).Ends s (.ok constructor) s') :
    s.SameClasses s' := by
  obtain ⟨refs, t, body, ⟨existing, hreplace⟩ | hadd⟩ := exists_of_ends_ensureFlagConstructor h
  · obtain ⟨u, hupdate, -, rfl⟩ := ends_replaceBody_ok.mp hreplace
    have hreplaced := Section.sameClasses_of_updateMethod (MethodDef.withBody body)
      (fun _ => rfl) hupdate
    exact (s.sameClasses_withRefs refs).trans
      (hreplaced.trans (u.sameClasses_hideSymbols existing.token))
  · obtain ⟨token, hadded, -⟩ := ends_addFlagConstructor_ok.mp hadd
    -- a constructor is not called like an initializer
    exact (s.sameClasses_withRefs refs).trans (Section.sameClasses_of_addMethod rfl hadded)

/-- What becomes of a resource is what the section says before, and the classes stay as they are. -/
theorem account_of_ends_equipResource (hs : s.NumbersTypes)
    (h : (equipResource external r).Ends s (.ok finding) s') :
    finding.account = s.account r ∧ s.SameClasses s' := by
  unfold Section.account
  rcases outcomes_of_ends_equipResource h with
    ⟨hclass, rfl, rfl⟩ | ⟨className, hclass, ⟨hfind, rfl, rfl⟩ | ⟨t, hfind, hlocated⟩⟩
  · rw [hclass]
    exact ⟨rfl, .refl s'⟩
  · simp only [hclass, hfind]
    exact ⟨rfl, .refl s'⟩
  · have ht := hs.typeDef?_of_findType hfind
    simp only [hclass, hfind]
    rcases hlocated with ⟨hlocate, rfl⟩ | ⟨initializers, v, hlocate, hequip⟩
    · obtain ⟨t', ht', hnone, rfl⟩ := ends_locate_none.mp hlocate
      obtain rfl := Option.some.inj (ht.symm.trans ht')
      rw [TypeDef.hasInitializer_of_initializer?_none hnone]
      exact ⟨rfl, .refl s'⟩
    · obtain ⟨t', whole, ht', hwhole, -⟩ := ends_locate_some.mp hlocate
      obtain rfl := Option.some.inj (ht.symm.trans ht')
      obtain ⟨constructor, hensure, rfl⟩ := ends_equipType_ok.mp hequip
      have hsame : s.SameClasses s' := (sameClasses_of_ends_locate hlocate).trans
        (sameClasses_of_ends_ensureFlagConstructor hensure)
      refine ⟨?_, hsame⟩
      rw [TypeDef.hasInitializer_of_initializer? hwhole, if_pos rfl, Finding.account, hsame.name,
        Section.typeName_congr hsame.outline,
        Section.typeName_of_findType hs.distinct hs.table hfind, Option.getD_some]

/-- What becomes of several resources is what the section says before the first one. -/
theorem accounts_of_ends_equipResources {resources : List Resource} {findings : List Finding}
    (hs : s.NumbersTypes)
    (h : (equipResources external resources).Ends s (.ok findings) s') :
    findings.map Finding.account = resources.map s.account := by
  induction resources generalizing s findings with
  | nil =>
    rw [equipResources, Edit.ends_pure, Except.ok.injEq] at h
    rw [h.1]
    rfl
  | cons r rest ih =>
    obtain ⟨finding, findings', v, hfirst, hrest, rfl⟩ := ends_equipResources_cons.mp h
    obtain ⟨hfinding, hsame⟩ := account_of_ends_equipResource hs hfirst
    have hfindings := ih (hsame.numbersTypes hs) hrest
    rw [funext (hsame.account hs)] at hfindings
    rw [List.map_cons, List.map_cons, hfinding, hfindings]

end DualInit
