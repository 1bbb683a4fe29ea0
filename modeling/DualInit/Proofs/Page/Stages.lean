import DualInit.Page.Pass
import DualInit.Proofs.Endings

/-!
# The stages of a pass

What the pass over a resource comes to when it succeeds, whatever the section: which stages it has
gone through, and what it answers (`outcomes_of_ends_equipResource`).  Nothing is assumed of tokens
here, so that what holds of a pass without such assumptions can be read off the stages.  What the
stages do to initializers and flag constructors is said where these are.
-/

namespace DualInit

variable {external : Resolver} {s s' : Section} {r : Resource} {type : Token}
  {initializers : Initializers} {className : String} {finding : Finding}

theorem ends_describedClass {σ : Type} {t t' : σ} {className : Option String} :
    (describedClass r).Ends t (.ok className) t' ↔ className = classify r ∧ t' = t := by
  unfold describedClass classify Descriptor.classifyBy Descriptor.read
  cases Descriptor.readBy .plain r with
  | error e => simp only [Edit.ends_tell_bind, Edit.ends_pure, Except.ok.injEq]
  | ok found => simp only [Edit.ends_pure, Except.ok.injEq]

theorem ends_findTarget {found : Option Token} :
    (findTarget className).Ends s (.ok found) s' ↔
      found = (s.findType className).map (·.token) ∧ s' = s := by
  rw [findTarget, Edit.ends_current_bind]
  cases s.findType className with
  | none => simp only [Edit.ends_tell_bind, Edit.ends_pure, Except.ok.injEq, Option.map_none]
  | some t => simp only [Edit.ends_pure, Except.ok.injEq, Option.map_some]

theorem ends_equipType_ok :
    (equipType external className type initializers).Ends s (.ok finding) s' ↔
      ∃ constructor, (ensureFlagConstructor external type initializers).Ends s
          (.ok constructor) s' ∧
        finding = .equipped
          { sectionName := s'.name
            typeName := (s'.typeName type).getD className
            precompiled := initializers.precompiled
            runtime := initializers.runtime
            flagConstructor := constructor.token
            placeholderCreated := initializers.placeholderCreated
            constructorCreated := constructor.created } := by
  rw [equipType]
  constructor
  · intro h
    obtain ⟨constructor, u, hensure, h⟩ := Edit.ends_bind_ok.mp h
    rw [Edit.ends_current_bind, Edit.ends_tell_bind, Edit.ends_pure, Except.ok.injEq] at h
    obtain ⟨hfinding, rfl⟩ := h
    exact ⟨constructor, hensure, hfinding⟩
  · rintro ⟨constructor, hensure, hfinding⟩
    refine Edit.ends_bind_ok.mpr ⟨constructor, s', hensure, ?_⟩
    rw [Edit.ends_current_bind, Edit.ends_tell_bind, Edit.ends_pure, Except.ok.injEq]
    exact ⟨hfinding, rfl⟩

/-- What a pass over a resource comes to if it succeeds: the resource is skipped for one of three
reasons, or the type that it names is equipped. -/
theorem outcomes_of_ends_equipResource
    (h : (equipResource external r).Ends s (.ok finding) s') :
    (classify r = none ∧ finding = .skipped ⟨s.name, r.name, none, .notXaml⟩ ∧ s' = s) ∨
    ∃ className, classify r = some className ∧
      ((s.findType className = none ∧
          finding = .skipped ⟨s.name, r.name, some className, .typeNotFound⟩ ∧ s' = s) ∨
        ∃ t, s.findType className = some t ∧
          (((locate t.token).Ends s (.ok none) s' ∧
              finding = .skipped ⟨s.name, r.name, some className, .noInitializer⟩) ∨
            ∃ initializers u, (locate t.token).Ends s (.ok (some initializers)) u ∧
              (equipType external className t.token initializers).Ends u (.ok finding) s')) := by
  rw [equipResource, Edit.ends_current_bind] at h
  obtain ⟨found, _, hdescribed, h⟩ := Edit.ends_bind_ok.mp h
  obtain ⟨hclass, rfl⟩ := ends_describedClass.mp hdescribed
  cases found with
  | none =>
    rw [Edit.ends_tell_bind, Edit.ends_pure, Except.ok.injEq] at h
    exact Or.inl ⟨hclass.symm, h⟩
  | some className =>
    rw [Edit.ends_tell_bind] at h
    obtain ⟨target, _, htarget, h⟩ := Edit.ends_bind_ok.mp h
    obtain ⟨htype, rfl⟩ := ends_findTarget.mp htarget
    refine Or.inr ⟨className, hclass.symm, ?_⟩
    cases hfind : Section.findType _ className with
    | none =>
      rw [htype, hfind, Option.map_none, Edit.ends_tell_bind, Edit.ends_pure, Except.ok.injEq] at h
      exact Or.inl ⟨rfl, h⟩
    | some t =>
      rw [htype, hfind, Option.map_some] at h
      obtain ⟨initializers, u, hlocate, h⟩ := Edit.ends_bind_ok.mp h
      refine Or.inr ⟨t, rfl, ?_⟩
      cases initializers with
      | none =>
        rw [Edit.ends_tell_bind, Edit.ends_pure, Except.ok.injEq] at h
        obtain ⟨hfinding, rfl⟩ := h
        exact Or.inl ⟨hlocate, hfinding⟩
      | some initializers => exact Or.inr ⟨initializers, u, hlocate, h⟩

theorem ends_equipResources_cons {rest : List Resource} {findings : List Finding} :
    (equipResources external (r :: rest)).Ends s (.ok findings) s' ↔
      ∃ finding findings' t, (equipResource external r).Ends s (.ok finding) t ∧
        (equipResources external rest).Ends t (.ok findings') s' ∧
        findings = finding :: findings' := by
  simp only [equipResources, Edit.ends_bind_ok, Edit.ends_pure, Except.ok.injEq]
  constructor
  · rintro ⟨finding, t, hfirst, findings', _, hrest, hfindings, rfl⟩
    exact ⟨finding, findings', t, hfirst, hrest, hfindings⟩
  · rintro ⟨finding, findings', t, hfirst, hrest, hfindings⟩
    exact ⟨finding, t, hfirst, findings', s', hrest, hfindings, rfl⟩

end DualInit
