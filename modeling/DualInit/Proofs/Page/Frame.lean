import DualInit.Proofs.Page.Equipping
import DualInit.Proofs.Page.Refitting

/-!
# What a pass leaves alone

`Section.Frame` says what a section keeps: its name, its resources, its references, and of its
types everything but the methods.  `Section.Reworked` adds what may become of a type: nothing, or
what an entry of the report says.  One step reworks a section (`ResourceStep.reworked`), and steps
add up (`Section.Reworked.trans`), also where several of them equip one type.
-/

namespace DualInit

/-- An entry of a report is about a type of a section: the type was found under the name of a
class, and the entry gives the type's own full name. -/
structure EquippedType.StandsFor (e : EquippedType) (s : Section) (t : TypeDef) : Prop where
  sectionName : e.sectionName = s.name
  typeName : ∃ className, s.findType className = some t ∧
    e.typeName = (s.typeName t.token).getD className

namespace Section

/-- What stays the same in a section. -/
structure Frame (s s' : Section) : Prop where
  name : s'.name = s.name
  resources : s'.resources = s.resources
  typeRefs : s'.typeRefs = s.typeRefs
  shells : s'.types.map TypeDef.shell = s.types.map TypeDef.shell
  /-- New references come behind the old ones and are references to base constructors. -/
  memberRefs : ∃ refs, s'.memberRefs = s.memberRefs ++ refs ∧ ∀ r ∈ refs, BaseReference s r

/-- A section is what the findings for some resources leave of another one. -/
structure Reworked (findings : List Finding) (s s' : Section) : Prop extends Frame s s' where
  /-- A type is what it was, or was equipped. -/
  types : ∀ token t u, s.typeDef? token = some t → s'.typeDef? token = some u →
    u = t ∨ ∃ e body, .equipped e ∈ findings ∧ e.StandsFor s t ∧ t.Refitted e body u

variable {s s' s'' : Section} {t u : TypeDef} {token : Token} {findings findings' : List Finding}

/-! ## Frames -/

namespace Frame

theorem refl (s : Section) : s.Frame s :=
  ⟨rfl, rfl, rfl, rfl, [], (List.append_nil _).symm, fun _ hr => absurd hr List.not_mem_nil⟩

theorem outline (h : s.Frame s') : s'.outline = s.outline := by
  rw [Section.outline, Section.outline, h.shells, h.typeRefs]

theorem trans (h : s.Frame s') (h' : s'.Frame s'') : s.Frame s'' := by
  refine ⟨h'.name.trans h.name, h'.resources.trans h.resources, h'.typeRefs.trans h.typeRefs,
    h'.shells.trans h.shells, ?_⟩
  obtain ⟨refs, hrefs, hbase⟩ := h.memberRefs
  obtain ⟨refs', hrefs', hbase'⟩ := h'.memberRefs
  refine ⟨refs ++ refs', by rw [hrefs', hrefs, List.append_assoc], fun r hr => ?_⟩
  rcases List.mem_append.mp hr with hr | hr
  · exact hbase r hr
  · have hr := hbase' r hr
    refine ⟨hr.name, hr.hasThis, hr.params, hr.parent.1, ?_⟩
    rw [typeRef?, ← h.typeRefs]
    exact hr.parent.2

/-- Every type is still there. -/
theorem exists_typeDef? (h : s.Frame s') (ht : s.typeDef? token = some t) :
    ∃ u, s'.typeDef? token = some u ∧ u.shell = t.shell := by
  have hshell := shell_typeDef?_congr h.outline token
  rw [ht] at hshell
  exact Option.map_eq_some_iff.mp hshell

theorem findType_shell (h : s.Frame s') (fullName : String) :
    (s.findType fullName).map TypeDef.shell = (s'.findType fullName).map TypeDef.shell :=
  shell_findType_congr h.outline.symm fullName

/-- Every name still leads to the type that it led to. -/
theorem exists_findType {fullName : String} (h : s.Frame s') (ht : s.findType fullName = some t) :
    ∃ u, s'.findType fullName = some u ∧ u.token = t.token := by
  have hshell := h.findType_shell fullName
  rw [ht] at hshell
  obtain ⟨u, hu, hshell⟩ := Option.map_eq_some_iff.mp hshell.symm
  have htoken : u.shell.token = t.shell.token := by rw [hshell]
  exact ⟨u, hu, htoken⟩

/-- An entry about a type is about what the type was. -/
theorem standsFor {e : EquippedType} (h : s.Frame s') (hs : s.TokensDistinct)
    (ht : s.typeDef? u.token = some t) (hstands : e.StandsFor s' u) : e.StandsFor s t := by
  obtain ⟨className, hfind, htypeName⟩ := hstands.typeName
  have htoken := token_of_typeDef? ht
  refine ⟨hstands.sectionName.trans h.name, className, ?_, ?_⟩
  · have hshell := h.findType_shell className
    rw [hfind] at hshell
    obtain ⟨t', ht', hshell⟩ := Option.map_eq_some_iff.mp hshell
    have htoken' : t'.shell.token = u.shell.token := by rw [hshell]
    have hfound := typeDef?_of_mem hs (mem_of_findType ht')
    rw [show t'.token = u.token from htoken', ht] at hfound
    rw [ht', Option.some.inj hfound]
  · rw [htypeName, typeName_congr h.outline, htoken]

theorem findType_eq_none {fullName : String} (h : s.Frame s') (hnone : s.findType fullName = none) :
    s'.findType fullName = none := by
  have hshell := h.findType_shell fullName
  rw [hnone] at hshell
  exact Option.map_eq_none_iff.mp hshell.symm

end Frame

/-! ## Reworked sections -/

namespace Reworked

theorem refl (findings : List Finding) (s : Section) : s.Reworked findings s where
  toFrame := .refl s
  types := fun _ _ _ ht hu => Or.inl (Option.some.inj (hu.symm.trans ht))

/-- Types that are equipped one after the other, or one of them several times, have been reworked
in all. -/
theorem trans (h : s.Reworked findings s') (h' : s'.Reworked findings' s'')
    (hs : s.TokensDistinct) (hs' : s'.TokensDistinct) :
    s.Reworked (findings ++ findings') s'' where
  toFrame := h.toFrame.trans h'.toFrame
  types := by
    intro token t w ht hw
    obtain ⟨u, hu, -⟩ := h.exists_typeDef? ht
    have hu' : s.typeDef? u.token = some t := by rw [token_of_typeDef? hu, ht]
    rcases h.types token t u ht hu with rfl | ⟨e, body, he, hstands, hrefitted⟩
    · rcases h'.types token u w hu hw with rfl | ⟨e, body, he, hstands, hrefitted⟩
      · exact Or.inl rfl
      · exact Or.inr ⟨e, body, List.mem_append_right _ he, h.standsFor hs hu' hstands, hrefitted⟩
    · have he' : .equipped e ∈ findings ++ findings' := List.mem_append_left _ he
      rcases h'.types token u w hu hw with rfl | ⟨e', body', -, -, hrefitted'⟩
      · exact Or.inr ⟨e, body, he', hstands, hrefitted⟩
      · exact Or.inr ⟨e, body', he', hstands,
          hrefitted.trans hrefitted' (hs'.of_mem (mem_of_typeDef? hu))⟩

end Reworked
end Section

/-! ## Steps rework a section -/

variable {external : Resolver} {s s' : Section} {r : Resource} {token : Token} {t : TypeDef}
  {finding : Finding} {findings : List Finding}

namespace Equipping

variable (q : Equipping external s)

theorem typeDef?_result_self : q.result.typeDef? q.before.token = some q.after := by
  rw [Section.typeDef?, q.types_result]
  exact Section.typeDef?_setType_self q.before_found q.token_after

theorem typeDef?_result_of_ne (h : q.before.token ≠ token) :
    q.result.typeDef? token = s.typeDef? token := by
  have hne : q.after.token ≠ token := q.token_after.trans_ne h
  rw [Section.typeDef?, q.types_result]
  exact Section.typeDef?_setType_of_ne hne

theorem refitted (className : String) : q.before.Refitted (q.entry className)
    (dispatchBody q.base q.precompiled q.runtime) q.after := by
  have hmem := Section.mem_of_typeDef? q.halves_found
  exact ⟨_, _, q.halves, q.halved, q.fitted, q.tokensDistinct.of_mem hmem⟩

theorem frame (hs : s.TokensDistinct) : s.Frame q.result where
  name := q.name_result
  resources := q.resources_result
  typeRefs := q.typeRefs_result
  shells := congrArg Section.types (q.outline_result hs)
  memberRefs := ⟨q.refs, q.memberRefs_result, fun r hr => (q.refs_new r hr).toBaseReference⟩

end Equipping

theorem ResourceStep.reworked (hs : s.TokensDistinct) (h : ResourceStep external s r finding s') :
    s.Reworked [finding] s' := by
  cases h with
  | notXaml | typeNotFound | noInitializer => exact .refl _ s
  | @equipped className q _ hfind =>
    refine ⟨q.frame hs, fun token t u ht hu => ?_⟩
    by_cases htoken : q.before.token = token
    · subst htoken
      obtain rfl := Option.some.inj (q.before_found.symm.trans ht)
      obtain rfl := Option.some.inj (q.typeDef?_result_self.symm.trans hu)
      exact Or.inr ⟨_, _, List.mem_singleton_self _, ⟨rfl, className, hfind, rfl⟩,
        q.refitted className⟩
    · rw [q.typeDef?_result_of_ne htoken, ht] at hu
      exact Or.inl (Option.some.inj hu).symm

/-- A pass over resources reworks the section. -/
theorem ResourceSteps.reworked {resources : List Resource}
    (h : ResourceSteps external s resources findings s') : s.Reworked findings s' := by
  induction h with
  | nil s => exact .refl [] s
  | cons hs _ hstep ht _ ih => exact (hstep.reworked hs).trans ih hs ht

theorem ResourceSteps.tokensDistinct {resources : List Resource} (hs : s.TokensDistinct)
    (h : ResourceSteps external s resources findings s') : s'.TokensDistinct := by
  induction h with
  | nil => exact hs
  | cons _ _ _ ht _ ih => exact ih ht

end DualInit
