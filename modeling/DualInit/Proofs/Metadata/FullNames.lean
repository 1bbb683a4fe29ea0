import DualInit.Proofs.Metadata.Names
import Mathlib.Data.List.Perm.Subperm

/-!
# Names lead to types and back

`findType` goes inwards along a full name, and `typeName` goes outwards from a type and puts the
name together.  With distinct tokens the two belong together: the type that is found under a name
has this name (`typeName_of_findType`).  If names hold no separators of their own and are not given
twice, a type is found under its name as well, however deep it is nested (`findType_of_nesting`):
a name leads through the type that its own type stands in (`findType_push`).

Going outwards is bounded by the number of types.  A `Nesting` is a type with the types it stands
in, outwards; it is determined by its innermost type (`Nesting.unique`), so no type is in it twice
(`Nesting.nodup`) and the bound is never reached.
-/

namespace DualInit

/-- Cutting a text and putting the pieces together again, from left to right, gives the text. -/
theorem foldl_texts (sep : Char) {text first : String} {rest : List String}
    (h : Split.texts sep text = first :: rest) :
    rest.foldl (fun name piece => name.push sep ++ piece) first = text := by
  have hjoin : ∀ (pieces : List (List Char)) (name : String),
      ((pieces.map String.ofList).foldl (fun name piece => name.push sep ++ piece) name).toList =
        name.toList ++ Split.join sep ([] :: pieces) := by
    intro pieces
    induction pieces with
    | nil => intro name; simp [Split.join]
    | cons piece pieces ih =>
      intro name
      rw [List.map_cons, List.foldl_cons, ih]
      cases pieces with
      | nil => simp [Split.join]
      | cons next pieces => simp [Split.join]
  rw [Split.texts] at h
  obtain ⟨piece, pieces, hpieces, rfl, rfl⟩ := List.map_eq_cons_iff.mp h
  apply String.toList_injective
  rw [hjoin, String.toList_ofList, ← Split.join_pieces sep text.toList, hpieces]
  cases pieces <;> simp [Split.join]

namespace Section

/-- A type with the types that it stands in, from the innermost to the outermost one. -/
inductive Nesting (s : Section) : List TypeDef → Prop where
  /-- A type that stands in no other one. -/
  | outermost {t : TypeDef} (ht : t ∈ s.types) (henclosing : t.enclosing? = none) : Nesting s [t]
  /-- A type that stands in another one. -/
  | inner {t u : TypeDef} {outers : List TypeDef} (houter : Nesting s (t :: outers))
      (hu : u ∈ s.types) (henclosing : u.enclosing? = some t.token) : Nesting s (u :: t :: outers)

/-- The full name of the innermost type of a nesting. -/
def nestedName : List TypeDef → String
  | [] => ""
  | [t] => t.qualifiedName
  | u :: t :: outers => (nestedName (t :: outers)).push nestedSeparator ++ u.name

variable {s : Section} {t u : TypeDef} {types outers : List TypeDef}

/-- A type is determined by its token. -/
theorem eq_of_token (hs : (s.types.map (·.token)).Nodup) (ht : t ∈ s.types) (hu : u ∈ s.types)
    (h : t.token = u.token) : t = u := by
  have hfound := Rows.find?_of_mem hs ht
  rw [h, Rows.find?_of_mem hs hu] at hfound
  exact (Option.some.inj hfound).symm

namespace Nesting

theorem mem (h : s.Nesting types) : ∀ t ∈ types, t ∈ s.types := by
  induction h with
  | outermost ht =>
    intro u hu
    rwa [List.mem_singleton.mp hu]
  | inner _ hu _ ih => exact List.forall_mem_cons.mpr ⟨hu, ih⟩

/-- The types that a type of a nesting stands in are those that follow it. -/
theorem of_append {inners : List TypeDef} (h : s.Nesting (inners ++ t :: outers)) :
    s.Nesting (t :: outers) := by
  induction inners with
  | nil => exact h
  | cons u inners ih =>
    have hne : inners ++ t :: outers ≠ [] := by simp
    obtain ⟨v, rest, hrest⟩ := List.exists_cons_of_ne_nil hne
    refine ih ?_
    rw [List.cons_append, hrest] at h
    rw [hrest]
    cases h with
    | inner houter => exact houter

/-- A type stands in certain types only. -/
theorem unique {others : List TypeDef} (hs : (s.types.map (·.token)).Nodup)
    (h : s.Nesting (t :: outers)) (h' : s.Nesting (t :: others)) : outers = others := by
  induction outers generalizing t others with
  | nil =>
    cases h with
    | outermost _ hnone =>
      cases h' with
      | outermost => rfl
      | inner _ _ hsome => exact absurd (hnone.symm.trans hsome) (by simp)
  | cons u outers ih =>
    cases h with
    | inner houter _ hsome =>
      cases h' with
      | outermost _ hnone => exact absurd (hnone.symm.trans hsome) (by simp)
      | @inner v _ _ houter' _ hsome' =>
        have htoken : u.token = v.token := Option.some.inj (hsome.symm.trans hsome')
        obtain rfl := eq_of_token hs (houter.mem u List.mem_cons_self)
          (houter'.mem v List.mem_cons_self) htoken
        rw [ih houter houter']

/-- No type stands in itself. -/
theorem nodup (hs : (s.types.map (·.token)).Nodup) (h : s.Nesting types) :
    (types.map (·.token)).Nodup := by
  induction h with
  | outermost => exact List.nodup_singleton _
  | @inner t u outers houter hu henclosing ih =>
    refine List.nodup_cons.mpr ⟨fun hmem => ?_, ih⟩
    obtain ⟨v, hv, htoken⟩ := List.mem_map.mp hmem
    obtain rfl := eq_of_token hs (houter.mem v hv) hu htoken
    obtain ⟨inners, rest, hsplit⟩ := List.append_of_mem hv
    have hrest : s.Nesting (v :: rest) := of_append (hsplit ▸ houter)
    have hlength := congrArg List.length (hrest.unique hs (.inner houter hu henclosing))
    have hlength' := congrArg List.length hsplit
    simp only [List.length_append, List.length_cons] at hlength hlength'
    omega

theorem length_le (hs : (s.types.map (·.token)).Nodup) (h : s.Nesting types) :
    types.length ≤ s.types.length := by
  have hsubset : types.map (·.token) ⊆ s.types.map (·.token) := by
    intro token htoken
    obtain ⟨t, ht, rfl⟩ := List.mem_map.mp htoken
    exact List.mem_map_of_mem (h.mem t ht)
  have hlength := (List.subperm_of_subset (h.nodup hs) hsubset).length_le
  rwa [List.length_map, List.length_map] at hlength

/-- Going outwards far enough puts the name of a nesting together. -/
theorem typeNameWithin (hs : (s.types.map (·.token)).Nodup)
    (htable : ∀ t ∈ s.types, t.token.table = Token.typeDefTable) (h : s.Nesting (t :: outers))
    {depth : Nat} (hdepth : outers.length < depth) :
    s.typeNameWithin depth t.token = some (nestedName (t :: outers)) := by
  induction outers generalizing t depth with
  | nil =>
    obtain ⟨depth, rfl⟩ := Nat.exists_eq_add_one_of_ne_zero (Nat.ne_zero_of_lt hdepth)
    cases h with
    | outermost ht hnone =>
      have hfound : s.typeDef? t.token = some t := Rows.find?_of_mem hs ht
      rw [Section.typeNameWithin, if_pos (htable t ht), hfound]
      simp only [Option.bind_eq_bind, Option.bind_some, hnone]
      rfl
  | cons u outers ih =>
    obtain ⟨depth, rfl⟩ := Nat.exists_eq_add_one_of_ne_zero (Nat.ne_zero_of_lt hdepth)
    cases h with
    | inner houter ht hsome =>
      have hfound : s.typeDef? t.token = some t := Rows.find?_of_mem hs ht
      have houtward := ih houter (Nat.lt_of_succ_lt_succ hdepth)
      rw [Section.typeNameWithin, if_pos (htable t ht), hfound]
      simp only [Option.bind_eq_bind, Option.bind_some, hsome, houtward]
      rfl

/-- The name of a type is the one that its nesting gives it. -/
theorem typeName (hs : (s.types.map (·.token)).Nodup)
    (htable : ∀ t ∈ s.types, t.token.table = Token.typeDefTable) (h : s.Nesting (t :: outers)) :
    s.typeName t.token = some (nestedName (t :: outers)) :=
  h.typeNameWithin hs htable (Nat.lt_succ_of_lt (h.length_le hs))

end Nesting

/-- Going inwards along names nests further types and appends the names. -/
theorem nesting_of_descend {names : List String} (h : s.Nesting (t :: outers))
    (hdescend : s.descend t names = some u) : ∃ types, s.Nesting (u :: types) ∧
      nestedName (u :: types) =
        names.foldl (fun name piece => name.push nestedSeparator ++ piece)
          (nestedName (t :: outers)) := by
  induction names generalizing t outers with
  | nil =>
    obtain rfl := Option.some.inj hdescend
    exact ⟨outers, h, rfl⟩
  | cons name names ih =>
    obtain ⟨inner, hinner, hrest⟩ := Option.bind_eq_some_iff.mp hdescend
    have hfound : inner.enclosing? = some t.token ∧ inner.name = name := by
      simpa using List.find?_some hinner
    obtain ⟨henclosing, rfl⟩ := hfound
    exact ih (.inner h (List.mem_of_find?_eq_some hinner) henclosing) hrest

/-- A type that is found under a name is nested as the name says. -/
theorem nesting_of_findType {fullName : String} (h : s.findType fullName = some t) :
    ∃ outers, s.Nesting (t :: outers) ∧ nestedName (t :: outers) = fullName := by
  unfold findType at h
  split at h
  · exact absurd h (by simp)
  · next name names htexts =>
    obtain ⟨outer, houter, hdescend⟩ := Option.bind_eq_some_iff.mp h
    have hfound : outer.enclosing? = none ∧ outer.qualifiedName = name := by
      simpa using List.find?_some houter
    obtain ⟨henclosing, rfl⟩ := hfound
    obtain ⟨outers, hnesting, hname⟩ :=
      nesting_of_descend (.outermost (List.mem_of_find?_eq_some houter) henclosing) hdescend
    exact ⟨outers, hnesting, hname.trans (foldl_texts nestedSeparator htexts)⟩

/-- The type that is found under a name has this name. -/
theorem typeName_of_findType {fullName : String} (hs : (s.types.map (·.token)).Nodup)
    (htable : ∀ t ∈ s.types, t.token.table = Token.typeDefTable)
    (h : s.findType fullName = some t) : s.typeName t.token = some fullName := by
  obtain ⟨outers, hnesting, rfl⟩ := nesting_of_findType h
  exact hnesting.typeName hs htable

/-! ## From a type to its name and back -/

theorem descend_concat (t : TypeDef) (names : List String) (name : String) :
    s.descend t (names ++ [name]) = (s.descend t names).bind fun outer =>
      s.types.find? fun u => u.enclosing? == some outer.token && u.name == name := by
  induction names generalizing t with
  | nil => exact Option.bind_fun_some _
  | cons first names ih =>
    rw [List.cons_append, descend, descend]
    cases s.types.find? fun u => u.enclosing? == some t.token && u.name == first with
    | none => rfl
    | some inner => exact ih inner

/-- A nested type is looked for in the type that is found under the rest of its name. -/
theorem findType_push {name : String} (hname : nestedSeparator ∉ name.toList) (outer : String) :
    s.findType (outer.push nestedSeparator ++ name) = (s.findType outer).bind fun t =>
      s.types.find? fun u => u.enclosing? == some t.token && u.name == name := by
  obtain ⟨first, names, htexts⟩ :=
    List.exists_cons_of_ne_nil (Split.texts_ne_nil nestedSeparator outer)
  unfold findType
  rw [Split.texts_push_append hname, htexts, List.cons_append]
  cases hfirst : s.types.find? fun t => t.enclosing?.isNone && t.qualifiedName == first with
  | none => simp [hfirst]
  | some t => simp [hfirst, descend_concat]

/-- Names hold no separators of their own. -/
def PlainNames (s : Section) : Prop :=
  ∀ t ∈ s.types, nestedSeparator ∉ t.spaceName.toList ∧ nestedSeparator ∉ t.name.toList

/-- No full name is given to two types. -/
def FullNamesDistinct (s : Section) : Prop :=
  ∀ t ∈ s.types, ∀ u ∈ s.types, ∀ fullName,
    s.typeName t.token = some fullName → s.typeName u.token = some fullName → t = u

theorem sep_notMem_qualifiedName (hplain : s.PlainNames) (ht : t ∈ s.types) :
    nestedSeparator ∉ t.qualifiedName.toList := by
  obtain ⟨hspace, hname⟩ := hplain t ht
  rw [TypeDef.qualifiedName, qualify]
  split
  · exact hname
  · have hdot : nestedSeparator ≠ '.' := by decide
    simp [hspace, hname, hdot]

/-- Nestings of one name have the same innermost type. -/
theorem Nesting.eq_of_name {others : List TypeDef} (hs : (s.types.map (·.token)).Nodup)
    (htable : ∀ t ∈ s.types, t.token.table = Token.typeDefTable) (hnames : s.FullNamesDistinct)
    (h : s.Nesting (t :: outers)) (h' : s.Nesting (u :: others))
    (hname : nestedName (u :: others) = nestedName (t :: outers)) : u = t :=
  hnames u (h'.mem u List.mem_cons_self) t (h.mem t List.mem_cons_self) _
    (hname ▸ h'.typeName hs htable) (h.typeName hs htable)

/-- A type is found under its name. -/
theorem findType_of_nesting (hs : (s.types.map (·.token)).Nodup)
    (htable : ∀ t ∈ s.types, t.token.table = Token.typeDefTable) (hplain : s.PlainNames)
    (hnames : s.FullNamesDistinct) (h : s.Nesting (t :: outers)) :
    s.findType (nestedName (t :: outers)) = some t := by
  induction outers generalizing t with
  | nil =>
    have ht : t ∈ s.types := h.mem t List.mem_cons_self
    have hnone : t.enclosing? = none := by
      cases h with
      | outermost _ hnone => exact hnone
    -- another type of this name that stands in none would have the same full name
    have houter : s.types.find? (fun u => u.enclosing?.isNone && u.qualifiedName == t.qualifiedName) =
        some t := by
      refine Rows.find?_of_unique ht (by simp [hnone]) fun u hu hmatch => ?_
      obtain ⟨hnone', hname⟩ : u.enclosing? = none ∧ u.qualifiedName = t.qualifiedName := by
        simpa using hmatch
      exact h.eq_of_name hs htable hnames (.outermost hu hnone') hname
    show s.findType t.qualifiedName = some t
    rw [findType, Split.texts_of_notMem (sep_notMem_qualifiedName hplain ht)]
    show (s.types.find? _).bind _ = _
    rw [houter]
    rfl
  | cons outer outers ih =>
    have ht : t ∈ s.types := h.mem t List.mem_cons_self
    obtain ⟨houter, hsome⟩ : s.Nesting (outer :: outers) ∧ t.enclosing? = some outer.token := by
      cases h with
      | inner houter _ hsome => exact ⟨houter, hsome⟩
    show s.findType ((nestedName (outer :: outers)).push nestedSeparator ++ t.name) = some t
    rw [findType_push (hplain t ht).2, ih houter, Option.bind_some]
    refine Rows.find?_of_unique ht (by simp [hsome]) fun u hu hmatch => ?_
    obtain ⟨hsome', hname⟩ : u.enclosing? = some outer.token ∧ u.name = t.name := by
      simpa using hmatch
    refine h.eq_of_name hs htable hnames (.inner houter hu hsome') ?_
    rw [nestedName, nestedName, hname]

/-- **Names and the lookup of types are inverse to each other**, for types of distinct tokens.  A type
that is found under a name has this name, and it stands in a chain of types that comes to an end, so
that going outwards from it ends.  Conversely a type that stands in such a chain, however long, has a
name and is found under it, as long as no name holds a separator and no two types have one full
name.  This says nothing of types whose chains do not end. -/
theorem findType_typeName_inverse (s : Section) (hs : (s.types.map (·.token)).Nodup)
    (htable : ∀ t ∈ s.types, t.token.table = Token.typeDefTable) :
    (∀ fullName t, s.findType fullName = some t →
      s.typeName t.token = some fullName ∧ ∃ outers, s.Nesting (t :: outers) ∧
        ∀ depth, outers.length < depth → s.typeNameWithin depth t.token = some fullName) ∧
    (s.PlainNames → s.FullNamesDistinct → ∀ t outers, s.Nesting (t :: outers) →
      ∃ fullName, s.typeName t.token = some fullName ∧ s.findType fullName = some t) := by
  refine ⟨fun fullName t hfound => ?_, fun hplain hnames t outers h => ?_⟩
  · have hname := typeName_of_findType hs htable hfound
    obtain ⟨outers, hnesting, rfl⟩ := nesting_of_findType hfound
    exact ⟨hname, outers, hnesting, fun depth hdepth => hnesting.typeNameWithin hs htable hdepth⟩
  · exact ⟨_, h.typeName hs htable, findType_of_nesting hs htable hplain hnames h⟩

/-- Three types of one name inside each other, the innermost one stored first, beside one in a
namespace and one in a type that is not there. -/
def namesakes : Section :=
  { empty "App.dll" with
    types := [
      ⟨⟨0x02000005⟩, "", "View", 0, none, some ⟨0x02000002⟩, []⟩,
      ⟨⟨0x02000001⟩, "App", "View", 0, none, none, []⟩,
      ⟨⟨0x02000002⟩, "Ignored", "View", 0, none, some ⟨0x02000003⟩, []⟩,
      ⟨⟨0x02000004⟩, "", "View", 0, none, some ⟨0x02000009⟩, []⟩,
      ⟨⟨0x02000003⟩, "", "View", 0, none, none, []⟩] }

theorem findType_typeName_inverse_namesakes :
    (namesakes.types.map (·.token)).Nodup ∧
      (∀ t ∈ namesakes.types, t.token.table = Token.typeDefTable) ∧ namesakes.PlainNames ∧
      namesakes.FullNamesDistinct ∧
      ∃ t, t.token = ⟨0x02000005⟩ ∧ namesakes.typeName t.token = some "View/View/View" ∧
        namesakes.findType "View/View/View" = some t := by
  have htokens : (namesakes.types.map (·.token)).Nodup := by decide
  have htable : ∀ t ∈ namesakes.types, t.token.table = Token.typeDefTable := by decide
  have hplain : namesakes.PlainNames := by
    unfold PlainNames
    decide +kernel
  have hnames : namesakes.FullNamesDistinct := by
    have hdistinct : (namesakes.types.map fun t => namesakes.typeName t.token).Nodup := by
      decide +kernel
    intro t ht u hu fullName htname huname
    exact List.inj_on_of_nodup_map hdistinct ht hu (htname.trans huname.symm)
  have hnesting : namesakes.Nesting [⟨⟨0x02000005⟩, "", "View", 0, none, some ⟨0x02000002⟩, []⟩,
      ⟨⟨0x02000002⟩, "Ignored", "View", 0, none, some ⟨0x02000003⟩, []⟩,
      ⟨⟨0x02000003⟩, "", "View", 0, none, none, []⟩] :=
    .inner (.inner (.outermost (by decide +kernel) rfl) (by decide +kernel) rfl)
      (by decide +kernel) rfl
  obtain ⟨fullName, hname, hfound⟩ :=
    (findType_typeName_inverse namesakes htokens htable).2 hplain hnames _ _ hnesting
  have hvalue : namesakes.typeName ⟨0x02000005⟩ = some "View/View/View" := by decide +kernel
  obtain rfl := Option.some.inj (hname.symm.trans hvalue)
  obtain ⟨hname', -⟩ := (findType_typeName_inverse namesakes htokens htable).1 _ _ hfound
  exact ⟨htokens, htable, hplain, hnames, _, rfl, hname', hfound⟩

end Section
end DualInit
