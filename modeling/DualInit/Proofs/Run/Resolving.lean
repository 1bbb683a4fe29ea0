import DualInit.Proofs.Run.Sections

/-!
# What a run changes for those who refer to the assembly

Other assemblies, and the assembly itself, may refer to a type that a run has equipped.  Of such a
type they are offered the parameterless constructor, and a run leaves it alone: whatever is
referred to, the same signature is offered before and after a run (`Image.Passed.offers`).
-/

namespace DualInit

/-- The signature of the parameterless constructor that a stored assembly has for a type. -/
def Image.offered (i : Image) (fullName : String) : Option Signature :=
  ((i.assembly.findType fullName).bind (·.parameterlessConstructor?)).map (·.signature)

namespace Store

variable {s : Store} {path : Path} {before after : Image}

theorem image?_of_firstStored {paths : List Path} {found : Path × Image}
    (h : s.firstStored paths = some found) : s.image? found.1 = some found.2 := by
  induction paths with
  | nil => exact absurd h (by simp [firstStored])
  | cons path paths ih =>
    rw [firstStored] at h
    cases hi : s.image? path with
    | none =>
      rw [hi] at h
      exact ih h
    | some i =>
      rw [hi] at h
      rw [← Option.some.inj h]
      exact hi

theorem firstStored_putImage (hbefore : s.image? path = some before) (paths : List Path) :
    (s.putImage path after).firstStored paths = (s.firstStored paths).map fun found =>
      (found.1, if found.1.location = path.location then after else found.2) := by
  induction paths with
  | nil => rfl
  | cons other paths ih =>
    rw [firstStored, firstStored, image?_putImage]
    by_cases hplace : other.location = path.location
    · have hother : s.image? other = some before := by
        rw [image?, hplace]
        exact hbefore
      rw [if_pos hplace, hother]
      simp only [Option.map_some, if_pos hplace]
    · rw [if_neg hplace]
      cases s.image? other with
      | none => exact ih
      | some i => simp only [Option.map_some, if_neg hplace]

/-- A store offers what the first assembly has that may be the one referred to. -/
theorem offers_resolver (origin : Path) (directories : List Path) (r : TypeRef) :
    (Codec.resolver s origin directories).offers r =
      (s.firstStored (candidates origin r.scope directories)).bind
        (·.2.offered r.qualifiedName) := by
  unfold Resolver.offers
  simp only [Codec.resolver, Codec.resolveType, resolveType]
  cases s.firstStored (candidates origin r.scope directories) with
  | none => rfl
  | some found => rfl

/-- Replacing an assembly by one that has the same to offer does not change what is offered. -/
theorem offers_putImage (hbefore : s.image? path = some before)
    (hsame : ∀ fullName, after.offered fullName = before.offered fullName) (origin : Path)
    (directories : List Path) (r : TypeRef) :
    (Codec.resolver (s.putImage path after) origin directories).offers r =
      (Codec.resolver s origin directories).offers r := by
  rw [offers_resolver, offers_resolver, firstStored_putImage hbefore]
  cases hfound : s.firstStored (candidates origin r.scope directories) with
  | none => rfl
  | some found =>
    simp only [Option.map_some, Option.bind_some]
    by_cases hplace : found.1.location = path.location
    · have hi := image?_of_firstStored hfound
      rw [image?, hplace] at hi
      obtain rfl := Option.some.inj (hbefore.symm.trans hi)
      rw [if_pos hplace, hsame]
    · rw [if_neg hplace]

end Store

/-! ## What is offered after a run -/

variable {external : Resolver}

/-- A type that is found in a reworked section has kept its parameterless constructor. -/
theorem Section.Reworked.findType {found : List Finding} {s s' : Section}
    (h : s.Reworked found s') (hs : s.TokensDistinct) (hs' : s'.TokensDistinct)
    (fullName : String) :
    (s'.findType fullName).map (·.parameterlessConstructor?) =
      (s.findType fullName).map (·.parameterlessConstructor?) := by
  cases ht : s.findType fullName with
  | none => rw [h.findType_eq_none ht]
  | some t =>
    obtain ⟨u, hu, htoken⟩ := h.exists_findType ht
    have htfound := typeDef?_of_findType hs ht
    have hufound := typeDef?_of_findType hs' hu
    rw [htoken] at hufound
    have hdistinct := hs.of_mem (mem_of_findType ht)
    rw [hu, Option.map_some, Option.map_some]
    rcases h.types t.token t u htfound hufound with rfl | ⟨e, body, -, -, hrefitted⟩
    · rfl
    · rw [hrefitted.parameterlessConstructor? hdistinct]

theorem Assembly.map_findType {β : Type} (f : TypeDef → β) (a : Assembly) (fullName : String) :
    (a.findType fullName).map f =
      (a.sections.map fun s => (s.findType fullName).map f).findSome? id := by
  rw [findType, List.map_findSome?, List.findSome?_map]
  rfl

/-- A run leaves what the assembly offers to others as it was. -/
theorem Image.Passed.offered {findings : List (List Finding)} {before after : Image}
    (h : before.Passed external findings after)
    (hdistinct : ∀ s ∈ before.assembly.sections, s.TokensDistinct) (fullName : String) :
    after.offered fullName = before.offered fullName := by
  have hsections : after.assembly.sections.map (fun s =>
        (s.findType fullName).map (·.parameterlessConstructor?)) =
      before.assembly.sections.map fun s =>
        (s.findType fullName).map (·.parameterlessConstructor?) := by
    refine List.ext_getElem? fun k => ?_
    rw [List.getElem?_map, List.getElem?_map]
    cases hs : before.assembly.sections[k]? with
    | none =>
      have hk := List.getElem?_eq_none_iff.mp hs
      rw [List.getElem?_eq_none_iff.mpr (by rw [h.length]; exact hk)]
    | some s =>
      obtain ⟨found, s', -, hs', hpassed⟩ := h.sections k s hs
      have hs := hdistinct s (List.mem_of_getElem? hs)
      rw [hs', Option.map_some, Option.map_some,
        hpassed.reworked.findType hs (hpassed.tokensDistinct hs)]
  have hfind := (Assembly.map_findType (·.parameterlessConstructor?) after.assembly fullName).trans
    ((congrArg (List.findSome? id) hsections).trans
      (Assembly.map_findType (·.parameterlessConstructor?) before.assembly fullName).symm)
  have hbind := congrArg (Option.bind · id) hfind
  rw [Option.bind_map, Option.bind_map] at hbind
  exact congrArg (Option.map (·.signature)) hbind

end DualInit
