import DualInit.Metadata.Assembly
import DualInit.Proofs.Metadata.Sections

/-!
# Names do not look at methods

A type is found by its name, and a name is put together for it, from what types are apart from
their methods and from the references.  `Section.outline` is a section that has nothing else: its
types are found where those of the section are (`findType_outline`) and have the same names
(`typeName_outline`), so sections with one outline agree on names.  Symbols are no part of it either
(`findType_of_withoutSymbols`, `typeName_of_withoutSymbols`).
-/

namespace DualInit
namespace Section

/-- What names are read from: types without methods, and references. -/
def outline (s : Section) : Section :=
  { empty "" with types := s.types.map TypeDef.shell, typeRefs := s.typeRefs }

variable {s s' : Section} {t u : TypeDef}

/-- What does not look at methods is found in the outline where it is found in the section. -/
theorem find?_outline (s : Section) {p : TypeDef → Bool} (hp : ∀ t, p t.shell = p t) :
    s.outline.types.find? p = (s.types.find? p).map TypeDef.shell := by
  have hshell : p ∘ TypeDef.shell = p := funext hp
  rw [outline, List.find?_map, hshell]

theorem typeDef?_outline (s : Section) (token : Token) :
    s.outline.typeDef? token = (s.typeDef? token).map TypeDef.shell :=
  find?_outline s fun _ => rfl

theorem descend_outline (s : Section) (t : TypeDef) (names : List String) :
    s.outline.descend t.shell names = (s.descend t names).map TypeDef.shell := by
  induction names generalizing t with
  | nil => rfl
  | cons name names ih =>
    have hinner := find?_outline s
      (p := fun u => u.enclosing? == some t.token && u.name == name) fun _ => rfl
    rw [descend, descend, TypeDef.token_shell, hinner]
    cases s.types.find? fun u => u.enclosing? == some t.token && u.name == name with
    | none => rfl
    | some u => exact ih u

theorem findType_outline (s : Section) (fullName : String) :
    s.outline.findType fullName = (s.findType fullName).map TypeDef.shell := by
  unfold findType
  cases Split.texts nestedSeparator fullName with
  | nil => rfl
  | cons name names =>
    have houter := find?_outline s
      (p := fun u => u.enclosing?.isNone && u.qualifiedName == name) fun _ => rfl
    simp only [houter]
    cases s.types.find? fun u => u.enclosing?.isNone && u.qualifiedName == name with
    | none => rfl
    | some u => exact descend_outline s u names

theorem typeNameWithin_outline (s : Section) (depth : Nat) (token : Token) :
    s.outline.typeNameWithin depth token = s.typeNameWithin depth token := by
  induction depth generalizing token with
  | zero => rfl
  | succ depth ih =>
    rw [typeNameWithin, typeNameWithin, typeDef?_outline]
    split
    · cases s.typeDef? token with
      | none => rfl
      | some t =>
        obtain ⟨token, spaceName, name, flags, extends?, enclosing?, methods⟩ := t
        cases enclosing? with
        | none => rfl
        | some enclosing =>
          simp only [Option.map_some, TypeDef.shell, Option.bind_eq_bind, Option.bind_some, ih]
    · rfl

theorem typeName_outline (s : Section) (token : Token) :
    s.outline.typeName token = s.typeName token := by
  rw [typeName, typeName, typeNameWithin_outline, outline, List.length_map]

theorem mem_of_descend {names : List String} (ht : t ∈ s.types)
    (h : s.descend t names = some u) : u ∈ s.types := by
  induction names generalizing t with
  | nil => exact Option.some.inj h ▸ ht
  | cons name names ih =>
    obtain ⟨inner, hinner, h⟩ := Option.bind_eq_some_iff.mp h
    exact ih (List.mem_of_find?_eq_some hinner) h

/-- A type that is found by its name is one of the section's. -/
theorem mem_of_findType {fullName : String} (h : s.findType fullName = some t) : t ∈ s.types := by
  unfold findType at h
  split at h
  · exact absurd h (by simp)
  · obtain ⟨outer, houter, h⟩ := Option.bind_eq_some_iff.mp h
    exact mem_of_descend (List.mem_of_find?_eq_some houter) h

/-- A type that is found by its name is found by its token. -/
theorem typeDef?_of_findType {fullName : String} (hs : s.TokensDistinct)
    (h : s.findType fullName = some t) : s.typeDef? t.token = some t :=
  typeDef?_of_mem hs (mem_of_findType h)

/-! ## Sections with one outline -/

theorem descend_of_types (h : s'.types = s.types) (t : TypeDef) (names : List String) :
    s'.descend t names = s.descend t names := by
  induction names generalizing t with
  | nil => rfl
  | cons name names ih =>
    rw [descend, descend, h]
    cases s.types.find? fun u => u.enclosing? == some t.token && u.name == name with
    | none => rfl
    | some u => exact ih u

theorem findType_of_types (h : s'.types = s.types) (fullName : String) :
    s'.findType fullName = s.findType fullName := by
  unfold findType
  cases Split.texts nestedSeparator fullName with
  | nil => rfl
  | cons name names =>
    simp only [h]
    cases s.types.find? fun u => u.enclosing?.isNone && u.qualifiedName == name with
    | none => rfl
    | some u => exact descend_of_types h u names

/-- Sections with one outline find types of the same shell under a name. -/
theorem shell_findType_congr (h : s.outline = s'.outline) (fullName : String) :
    (s.findType fullName).map TypeDef.shell = (s'.findType fullName).map TypeDef.shell := by
  rw [← findType_outline s, h, findType_outline]

theorem shell_typeDef?_congr (h : s.outline = s'.outline) (token : Token) :
    (s.typeDef? token).map TypeDef.shell = (s'.typeDef? token).map TypeDef.shell := by
  rw [← typeDef?_outline s, h, typeDef?_outline]

theorem typeName_congr (h : s.outline = s'.outline) (token : Token) :
    s.typeName token = s'.typeName token := by
  rw [← typeName_outline s, h, typeName_outline]

/-- Replacing a type by one with the same shell does not change the outline. -/
theorem outline_setType (hs : s.TokensDistinct) (ht : s.typeDef? t.token = some u)
    (hshell : t.shell = u.shell) : (s.setType t).outline = s.outline := by
  have htypes : (s.setType t).types.map TypeDef.shell = s.types.map TypeDef.shell := by
    refine Rows.map_set_congr fun r hr heq => ?_
    have hr' := typeDef?_of_mem hs hr
    rw [heq, ht] at hr'
    rw [← Option.some.inj hr', hshell]
  rw [outline, outline, htypes]
  rfl

/-! ## Sections that agree in everything but symbols -/

theorem eq_withSymbols (h : s.withoutSymbols = s'.withoutSymbols) :
    s = { s' with symbols := s.symbols } := by
  obtain ⟨name, resources, types, typeRefs, memberRefs, symbols⟩ := s
  obtain ⟨rfl, rfl, rfl, rfl, rfl, -⟩ := Section.mk.inj h
  rfl

theorem exists_symbols (h : s.withoutSymbols = s'.withoutSymbols) :
    ∃ symbols, s = { s' with symbols } :=
  ⟨_, eq_withSymbols h⟩

theorem findType_of_withoutSymbols (h : s.withoutSymbols = s'.withoutSymbols) (fullName : String) :
    s.findType fullName = s'.findType fullName := by
  have htypes : s.types = s'.types := by rw [eq_withSymbols h]
  exact findType_of_types htypes fullName

theorem typeName_of_withoutSymbols (h : s.withoutSymbols = s'.withoutSymbols) (token : Token) :
    s.typeName token = s'.typeName token := by
  have houtline : s.outline = s'.outline := by
    rw [eq_withSymbols h]
    rfl
  exact typeName_congr houtline token

end Section
end DualInit
