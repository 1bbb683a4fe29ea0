import DualInit.Entries
import DualInit.Xml.Namespace
import Mathlib.Data.List.Nodup

/-!
# What the attributes of a tag say

`Attribute.Spells` is the grammar of attributes, without a word about how they are read: names,
signs and quoted values, with blanks where they are allowed.  `read_eq_iff` says that the reader
accepts exactly the texts of the grammar and answers the attributes that they spell.

A tag in which no name is used twice, and whose declarations leave the reserved prefixes and
namespaces alone, is `WellFormed`.  In such a tag an attribute `IsIn` a namespace if a declaration
anywhere in the tag binds its prefix; `resolve?_eq_some` says that the bindings come to this.
-/

namespace DualInit
namespace Xml

namespace Attribute

/-! ## The grammar -/

/-- Bytes that are all blank. -/
def Blanks (bs : List UInt8) : Prop :=
  ∀ b ∈ bs, isBlank b = true

/-- A text that spells attributes.  A name is at least one byte, and only the first one may be an
equals sign; a value is whatever does not have the quote that it stands in. -/
inductive Spells : List UInt8 → List Attribute → Prop where
  | done {gap : List UInt8} (hgap : Blanks gap) : Spells gap []
  | next {gap more before after value rest : List UInt8} {first quote : UInt8}
      {attributes : List Attribute} (hgap : Blanks gap) (hfirst : isBlank first = false)
      (hmore : ∀ b ∈ more, b ≠ byte '=' ∧ isBlank b = false) (hbefore : Blanks before)
      (hafter : Blanks after) (hquote : quote = byte '"' ∨ quote = byte '\'')
      (hvalue : quote ∉ value) (hrest : Spells rest attributes) :
      Spells (gap ++ first :: (more ++ (before ++ byte '=' ::
          (after ++ quote :: (value ++ quote :: rest)))))
        (⟨first :: more, value⟩ :: attributes)

variable {gap more before after value rest part : List UInt8} {first quote b : UInt8}
  {attributes : List Attribute}

theorem Blanks.cons (hb : isBlank b = true) (h : Blanks gap) : Blanks (b :: gap) :=
  List.forall_mem_cons.mpr ⟨hb, h⟩

theorem Blanks.nil : Blanks [] :=
  List.forall_mem_nil _

/-- More blanks in front change nothing. -/
theorem Spells.blank (h : Spells part attributes) (hb : isBlank b = true) :
    Spells (b :: part) attributes := by
  cases h with
  | done hgap => exact .done (hgap.cons hb)
  | next hgap hfirst hmore hbefore hafter hquote hvalue hrest =>
    exact .next (hgap.cons hb) hfirst hmore hbefore hafter hquote hvalue hrest

/-! ## Reading what the grammar allows -/

theorem ne_sign_of_isBlank (h : isBlank b = true) : b ≠ byte '=' := by
  rintro rfl
  exact absurd h (by decide)

theorem not_quote_of_isBlank (h : isBlank b = true) : ¬ (b = byte '"' ∨ b = byte '\'') := by
  rintro (rfl | rfl)
  · exact absurd h (by decide)
  · exact absurd h (by decide)

theorem readIn_gap_append (hgap : Blanks gap) (rest : List UInt8) :
    readIn .gap (gap ++ rest) = readIn .gap rest := by
  induction gap with
  | nil => rfl
  | cons b gap ih =>
    obtain ⟨hb, hgap⟩ := List.forall_mem_cons.mp hgap
    rw [List.cons_append, readIn, if_pos hb, ih hgap]

theorem readIn_key_append (hmore : ∀ b ∈ more, b ≠ byte '=' ∧ isBlank b = false)
    (read rest : List UInt8) :
    readIn (.key read) (more ++ rest) = readIn (.key (more.reverse ++ read)) rest := by
  induction more generalizing read with
  | nil => rfl
  | cons b more ih =>
    obtain ⟨⟨hsign, hblank⟩, hmore⟩ := List.forall_mem_cons.mp hmore
    rw [List.cons_append, readIn, if_neg hsign, if_neg (Bool.eq_false_iff.mp hblank), ih hmore,
      List.reverse_cons, List.append_assoc]
    rfl

theorem readIn_afterKey_append (hbefore : Blanks before) (key rest : List UInt8) :
    readIn (.afterKey key) (before ++ byte '=' :: rest) = readIn (.equals key) rest := by
  induction before with
  | nil => rw [List.nil_append, readIn, if_pos rfl]
  | cons b before ih =>
    obtain ⟨hb, hbefore⟩ := List.forall_mem_cons.mp hbefore
    rw [List.cons_append, readIn, if_neg (ne_sign_of_isBlank hb), if_pos hb, ih hbefore]

theorem readIn_key_sign (hbefore : Blanks before) (read rest : List UInt8) :
    readIn (.key read) (before ++ byte '=' :: rest) = readIn (.equals read.reverse) rest := by
  cases before with
  | nil => rw [List.nil_append, readIn, if_pos rfl]
  | cons b before =>
    obtain ⟨hb, hbefore⟩ := List.forall_mem_cons.mp hbefore
    rw [List.cons_append, readIn, if_neg (ne_sign_of_isBlank hb), if_pos hb,
      readIn_afterKey_append hbefore]

theorem readIn_equals_append (hafter : Blanks after)
    (hquote : quote = byte '"' ∨ quote = byte '\'') (key rest : List UInt8) :
    readIn (.equals key) (after ++ quote :: rest) = readIn (.value key quote []) rest := by
  induction after with
  | nil => rw [List.nil_append, readIn, if_pos hquote]
  | cons b after ih =>
    obtain ⟨hb, hafter⟩ := List.forall_mem_cons.mp hafter
    rw [List.cons_append, readIn, if_neg (not_quote_of_isBlank hb), if_pos hb, ih hafter]

theorem readIn_value_append (hvalue : quote ∉ value)
    (hrest : readIn .gap rest = (attributes, none)) (key read : List UInt8) :
    readIn (.value key quote read) (value ++ quote :: rest) =
      (⟨key, read.reverse ++ value⟩ :: attributes, none) := by
  induction value generalizing read with
  | nil => rw [List.nil_append, readIn, if_pos rfl, hrest, List.append_nil]
  | cons b value ih =>
    rw [List.mem_cons, not_or] at hvalue
    obtain ⟨hb, hvalue⟩ := hvalue
    rw [List.cons_append, readIn, if_neg (Ne.symm hb), ih hvalue, List.reverse_cons,
      List.append_assoc]
    rfl

theorem Spells.readIn (h : Spells part attributes) : readIn .gap part = (attributes, none) := by
  induction h with
  | @done gap hgap =>
    rw [← List.append_nil gap, readIn_gap_append hgap]
    rfl
  | @next gap more before after value rest first quote attributes hgap hfirst hmore hbefore hafter
      hquote hvalue _ ih =>
    rw [readIn_gap_append hgap, Attribute.readIn, if_neg (Bool.eq_false_iff.mp hfirst),
      readIn_key_append hmore, readIn_key_sign hbefore, readIn_equals_append hafter hquote,
      readIn_value_append hvalue ih]
    simp

/-! ## Reading nothing else -/

/-- A text that goes on behind an opening quote. -/
def SpellsValue (key : List UInt8) (quote : UInt8) (read part : List UInt8)
    (attributes : List Attribute) : Prop :=
  ∃ value rest others, quote ∉ value ∧ part = value ++ quote :: rest ∧ Spells rest others ∧
    attributes = ⟨key, read.reverse ++ value⟩ :: others

/-- A text that goes on behind an equals sign. -/
def SpellsQuoted (key part : List UInt8) (attributes : List Attribute) : Prop :=
  ∃ after quote rest, Blanks after ∧ (quote = byte '"' ∨ quote = byte '\'') ∧
    part = after ++ quote :: rest ∧ SpellsValue key quote [] rest attributes

/-- A text that goes on behind a name. -/
def SpellsSign (key part : List UInt8) (attributes : List Attribute) : Prop :=
  ∃ before rest, Blanks before ∧ part = before ++ byte '=' :: rest ∧
    SpellsQuoted key rest attributes

/-- A text that goes on as the mode of the reader says. -/
def GoesOn : Mode → List UInt8 → List Attribute → Prop
  | .gap, part, attributes => Spells part attributes
  | .key read, part, attributes =>
    ∃ more rest, (∀ b ∈ more, b ≠ byte '=' ∧ isBlank b = false) ∧ part = more ++ rest ∧
      SpellsSign (read.reverse ++ more) rest attributes
  | .afterKey key, part, attributes => SpellsSign key part attributes
  | .equals key, part, attributes => SpellsQuoted key part attributes
  | .value key quote read, part, attributes => SpellsValue key quote read part attributes

theorem goesOn_of_readIn {mode : Mode} (h : Attribute.readIn mode part = (attributes, none)) :
    GoesOn mode part attributes := by
  fun_induction Attribute.readIn mode part generalizing attributes with
  | case1 =>
    cases h
    exact .done .nil
  | case2 => cases h
  | case3 b rest hb ih => exact (ih h).blank hb
  | case4 b rest hb ih =>
    obtain ⟨more, rest, hmore, rfl, before, rest, hbefore, rfl, after, quote, rest, hafter, hquote,
      rfl, value, rest, others, hvalue, rfl, hrest, rfl⟩ := ih h
    have hspells := Spells.next .nil (Bool.eq_false_iff.mpr hb) hmore hbefore hafter hquote hvalue
      hrest
    exact hspells
  | case5 read rest ih =>
    refine ⟨[], _, List.forall_mem_nil _, rfl, [], rest, .nil, rfl, ?_⟩
    rw [List.append_nil]
    exact ih h
  | case6 read b rest hsign hb ih =>
    obtain ⟨before, rest, hbefore, rfl, hquoted⟩ := ih h
    refine ⟨[], _, List.forall_mem_nil _, rfl, b :: before, rest, hbefore.cons hb, rfl, ?_⟩
    rw [List.append_nil]
    exact hquoted
  | case7 read b rest hsign hb ih =>
    obtain ⟨more, rest, hmore, rfl, hspells⟩ := ih h
    refine ⟨b :: more, rest, List.forall_mem_cons.mpr ⟨⟨hsign, Bool.eq_false_iff.mpr hb⟩, hmore⟩,
      rfl, ?_⟩
    rw [List.reverse_cons, List.append_assoc] at hspells
    exact hspells
  | case8 key rest ih => exact ⟨[], rest, .nil, rfl, ih h⟩
  | case9 key b rest hsign hb ih =>
    obtain ⟨before, rest, hbefore, rfl, hquoted⟩ := ih h
    exact ⟨b :: before, rest, hbefore.cons hb, rfl, hquoted⟩
  | case10 => cases h
  | case11 key b rest hquote ih => exact ⟨[], b, rest, .nil, hquote, rfl, ih h⟩
  | case12 key b rest hquote hb ih =>
    obtain ⟨after, quote, rest, hafter, hquote, rfl, hvalue⟩ := ih h
    exact ⟨b :: after, quote, rest, hafter.cons hb, hquote, rfl, hvalue⟩
  | case13 => cases h
  | case14 key read b rest others fault hrest ih =>
    cases h
    exact ⟨[], rest, others, List.not_mem_nil, rfl, ih hrest, by rw [List.append_nil]⟩
  | case15 key quote read b rest hb ih =>
    obtain ⟨value, rest, others, hvalue, rfl, hrest, rfl⟩ := ih h
    refine ⟨b :: value, rest, others, ?_, rfl, hrest, ?_⟩
    · rw [List.mem_cons, not_or]
      exact ⟨Ne.symm hb, hvalue⟩
    · rw [List.reverse_cons, List.append_assoc]
      rfl

/-- The reader finds no fault with exactly the texts that spell attributes, and answers these. -/
theorem read_eq_iff : read part = (attributes, none) ↔ Spells part attributes :=
  ⟨goesOn_of_readIn, Spells.readIn⟩

/-- Attributes are handed out as they are if and only if no name is used twice, nor one that was seen
before. -/
theorem withoutDuplicates_eq_map_ok {seen : List (List UInt8)} {others : List Attribute} :
    withoutDuplicates seen attributes = others.map .ok ↔ others = attributes ∧
      (attributes.map (·.key)).Nodup ∧ ∀ a ∈ attributes, a.key ∉ seen := by
  induction attributes generalizing seen others with
  | nil => simp [withoutDuplicates]
  | cons a attributes ih =>
    cases others with
    | nil => simp [withoutDuplicates]
    | cons b others =>
      rw [withoutDuplicates, List.map_cons, List.cons.injEq, ih, List.cons.injEq]
      by_cases hseen : a.key ∈ seen
      · simp [hseen]
      · rw [if_neg hseen, Except.ok.injEq, List.map_cons, List.nodup_cons]
        simp only [List.mem_cons, not_or, forall_eq_or_imp, List.mem_map, not_exists, not_and]
        grind

/-- The attributes that a text spells are handed out if no name is used twice, and others never are. -/
theorem report_eq_map_ok : report part = attributes.map .ok ↔
    Spells part attributes ∧ (attributes.map (·.key)).Nodup := by
  rw [← read_eq_iff, report]
  rcases read part with ⟨others, _ | fault⟩
  · simp only [Option.toList_none, List.map_nil, List.append_nil, withoutDuplicates_eq_map_ok,
      Prod.mk.injEq, and_true]
    constructor
    · rintro ⟨rfl, hdistinct, -⟩
      exact ⟨rfl, hdistinct⟩
    · rintro ⟨rfl, hdistinct⟩
      exact ⟨rfl, hdistinct, fun _ _ => List.not_mem_nil⟩
  · refine iff_of_false (fun h => ?_) (fun h => absurd h.1 (by simp))
    have hmem : .error fault ∈ attributes.map Except.ok := by simp [← h]
    obtain ⟨a, -, ha⟩ := List.mem_map.mp hmem
    cases ha

/-! ## Names -/

/-- The first colon of a name divides it. -/
theorem splitKey_eq_some {key name localName : List UInt8} :
    splitKey key = (some name, localName) ↔
      byte ':' ∉ name ∧ key = name ++ byte ':' :: localName := by
  unfold splitKey
  constructor
  · intro h
    split at h
    · cases h
    · next c localPart hdrop =>
      cases h
      have hsign : c = byte ':' := by
        have hfirst := List.head_dropWhile_not (· != byte ':') (l := key) (by simp [hdrop])
        simpa [hdrop] using hfirst
      have hall := List.all_takeWhile (p := (· != byte ':')) (l := key)
      refine ⟨fun hmem => absurd (List.all_eq_true.mp hall _ hmem) (by simp), ?_⟩
      have hwhole := List.takeWhile_append_dropWhile (p := (· != byte ':')) (l := key)
      rw [hdrop, hsign] at hwhole
      exact hwhole.symm
  · rintro ⟨hname, rfl⟩
    have hall : ∀ b ∈ name, (b != byte ':') = true := fun b hb =>
      bne_iff_ne.mpr fun heq => hname (heq ▸ hb)
    rw [List.dropWhile_append_of_pos hall, List.takeWhile_append_of_pos hall]
    simp

end Attribute

namespace Namespace

open Attribute

variable {a : Attribute} {attributes : List Attribute} {name uri : List UInt8}

theorem boundPrefix?_eq_some :
    boundPrefix? a = some name ↔ a.key = bytes "xmlns" ++ byte ':' :: name := by
  have hsplit : splitKey a.key = (some (bytes "xmlns"), name) ↔
      a.key = bytes "xmlns" ++ byte ':' :: name := by
    rw [splitKey_eq_some, and_iff_right (by decide)]
  rw [← hsplit, boundPrefix?]
  split
  · next first localName heq =>
    rw [heq, Prod.mk.injEq, Option.some_inj]
    split
    · next hfirst => simp [hfirst]
    · next hfirst => simp [hfirst]
  · next heq => simp [heq]

/-- The bindings that attributes make, in order. -/
def declared (attributes : List Attribute) : List (List UInt8 × List UInt8) :=
  attributes.filterMap fun a => (boundPrefix? a).map (·, a.value)

theorem mem_declared : (name, uri) ∈ declared attributes ↔
    ∃ d ∈ attributes, d.key = bytes "xmlns" ++ byte ':' :: name ∧ d.value = uri := by
  simp [declared, boundPrefix?_eq_some]

/-- Bindings are made if each of them is allowed. -/
theorem bindings_eq_declared : bindings attributes = .ok (declared attributes) ↔
    ∀ d ∈ attributes, ∀ name, d.key = bytes "xmlns" ++ byte ':' :: name →
      isAllowed name d.value = true := by
  have hall : ((declared attributes).all fun entry => isAllowed entry.1 entry.2) = true ↔
      ∀ d ∈ attributes, ∀ name, d.key = bytes "xmlns" ++ byte ':' :: name →
        isAllowed name d.value = true := by
    rw [List.all_eq_true]
    constructor
    · intro h d hd name hname
      exact h (name, d.value) (mem_declared.mpr ⟨d, hd, hname, rfl⟩)
    · rintro h ⟨name, uri⟩ hentry
      obtain ⟨d, hd, hname, rfl⟩ := mem_declared.mp hentry
      exact h d hd name hname
  rw [← hall]
  refine ite_eq_left_iff.trans ⟨fun h => ?_, fun h hnot => absurd h hnot⟩
  by_contra hnot
  exact absurd (h hnot) nofun

/-- Declarations of different names bind different prefixes. -/
theorem nodup_declared (h : (attributes.map (·.key)).Nodup) :
    ((declared attributes).map Prod.fst).Nodup := by
  have hkeys : (declared attributes).map Prod.fst =
      (attributes.map (·.key)).filterMap fun key => boundPrefix? ⟨key, []⟩ := by
    rw [declared, List.map_filterMap, List.filterMap_map]
    refine List.filterMap_congr fun d _ => ?_
    rw [Option.map_map]
    exact Option.map_id'
  rw [hkeys]
  refine h.filterMap fun key key' name hname hname' => ?_
  rw [Option.mem_def, boundPrefix?_eq_some] at hname hname'
  exact hname.trans hname'.symm

theorem eq_declared_of_bindings {bound : List (List UInt8 × List UInt8)}
    (h : bindings attributes = .ok bound) : bound = declared attributes := by
  rw [bindings] at h
  split at h
  · exact (Except.ok.inj h).symm
  · cases h

/-- A prefix stands for the namespace that a declaration binds it to. -/
theorem resolve?_eq_some (h : (attributes.map (·.key)).Nodup) :
    resolve? (declared attributes) name = some uri ↔ name ≠ [] ∧ uri ≠ [] ∧
      ∃ d ∈ attributes, d.key = bytes "xmlns" ++ byte ':' :: name ∧ d.value = uri := by
  have hreverse : (((declared attributes).reverse).map Prod.fst).Nodup := by
    rw [List.map_reverse, List.nodup_reverse]
    exact nodup_declared h
  rw [← mem_declared, ← List.mem_reverse, ← lookup_eq_some_iff_mem hreverse, resolve?]
  by_cases hname : name = []
  · simp [hname]
  · rw [if_neg hname, Option.filter_eq_some_iff]
    simp [hname, and_comm]

/-- What holds in every document makes no difference to other namespaces. -/
theorem resolve?_reserved_append {bindings : List (List UInt8 × List UInt8)} (hxml : uri ≠ xmlUri)
    (hxmlns : uri ≠ xmlnsUri) :
    resolve? (reserved ++ bindings) name = some uri ↔ resolve? bindings name = some uri := by
  have hreserved : reserved.reverse.lookup name ≠ some uri := by
    intro h
    obtain ⟨k, hk⟩ : ∃ k, (k, uri) ∈ reserved := by
      obtain ⟨before, after, hsplit, -⟩ := List.lookup_eq_some_iff.mp h
      exact ⟨name, List.mem_reverse.mp (hsplit ▸ by simp)⟩
    rw [reserved, List.mem_cons, List.mem_singleton, Prod.mk.injEq, Prod.mk.injEq] at hk
    exact hk.elim (fun hk => hxml hk.2) fun hk => hxmlns hk.2
  unfold resolve?
  split
  · exact Iff.rfl
  · rw [List.reverse_append, List.lookup_append]
    cases hbound : bindings.reverse.lookup name with
    | some v => rfl
    | none =>
      rw [Option.none_or, Option.filter_eq_some_iff]
      exact iff_of_false (fun h => hreserved h.1) nofun

end Namespace

namespace Attribute

/-- A tag's attributes can be read, no name is used twice, and the declarations of namespaces keep to
the rules for reserved prefixes. -/
structure WellFormed (part : List UInt8) (attributes : List Attribute) : Prop where
  spells : Spells part attributes
  distinct : (attributes.map (·.key)).Nodup
  allowed : ∀ d ∈ attributes, ∀ name, d.key = bytes "xmlns" ++ byte ':' :: name →
    Namespace.isAllowed name d.value = true

/-- An attribute has a local name in a namespace: its prefix is bound to the namespace by a
declaration in the same tag. -/
def IsIn (attributes : List Attribute) (uri localName : List UInt8) (a : Attribute) : Prop :=
  ∃ name, byte ':' ∉ name ∧ a.key = name ++ byte ':' :: localName ∧ name ≠ [] ∧ uri ≠ [] ∧
    ∃ d ∈ attributes, d.key = bytes "xmlns" ++ byte ':' :: name ∧ d.value = uri

/-- The namespace and the local name of an attribute, if its prefix is bound. -/
def expandedName? (attributes : List Attribute) (a : Attribute) :
    Option (List UInt8 × List UInt8) :=
  match splitKey a.key with
  | (some name, localName) =>
    (Namespace.resolve? (Namespace.declared attributes) name).map (·, localName)
  | (none, _) => none

variable {part uri localName : List UInt8} {attributes : List Attribute} {a : Attribute}

theorem expandedName?_eq_some (h : (attributes.map (·.key)).Nodup) :
    expandedName? attributes a = some (uri, localName) ↔ a.IsIn attributes uri localName := by
  have hsplit : expandedName? attributes a = some (uri, localName) ↔
      ∃ name, splitKey a.key = (some name, localName) ∧
        Namespace.resolve? (Namespace.declared attributes) name = some uri := by
    unfold expandedName?
    split
    · next heq => simp [heq, and_comm]
    · next heq => simp [heq]
  rw [hsplit]
  simp only [splitKey_eq_some, Namespace.resolve?_eq_some h, IsIn, and_assoc]

/-- The name of an attribute has the namespace that its prefix is bound to. -/
theorem expand_eq_some (h : (attributes.map (·.key)).Nodup) (hxml : uri ≠ Namespace.xmlUri)
    (hxmlns : uri ≠ Namespace.xmlnsUri) :
    Namespace.expand (Namespace.declared attributes) a.key = (some uri, localName) ↔
      a.IsIn attributes uri localName := by
  rw [← expandedName?_eq_some h, Namespace.expand, expandedName?]
  rcases splitKey a.key with ⟨_ | name, localName'⟩
  · simp
  · simp [Namespace.resolve?_reserved_append hxml hxmlns]

/-- The attributes of a tag are well-formed if and only if the reader hands them all out and binds what
they declare. -/
theorem wellFormed_iff : WellFormed part attributes ↔ report part = attributes.map .ok ∧
    Namespace.bindings attributes = .ok (Namespace.declared attributes) := by
  rw [report_eq_map_ok, Namespace.bindings_eq_declared]
  constructor
  · intro h
    exact ⟨⟨h.spells, h.distinct⟩, h.allowed⟩
  · rintro ⟨⟨hspells, hdistinct⟩, hallowed⟩
    exact ⟨hspells, hdistinct, hallowed⟩

end Attribute
end Xml
end DualInit
