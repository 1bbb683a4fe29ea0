import DualInit.Page.Descriptor
import DualInit.Proofs.Xml.StartTag
import DualInit.Proofs.Xml.Reader
import Mathlib.Data.List.Pairwise

/-!
# What classifies a page

The header of a descriptor settles its class, whichever reader of documents is used, as long as it
stops at the first start tag and goes by the declarations there.  Bytes behind the tag change nothing,
and of the tag only its `Class` attributes in the two namespaces of the language count, wherever they
stand among the attributes and whatever prefixes their names have (`classify_header`).

The pass uses the plain reader.  For it the same is said of the bytes of the tag, without a word about
reading (`classify_spelled`).
-/

namespace DualInit
namespace Descriptor

open Xml

variable {ε : Type} {reader : Reader ε} {t : Tag ε} {header uri : List UInt8} {behind : Nat}
  {attributes : List Attribute} {a : Attribute}

/-! ## The attributes of a tag -/

/-- The class that the attributes of a tag name in a namespace, if there is one. -/
inductive ClassIn (reader : Reader ε) (attributes : List Attribute) (uri : List UInt8) :
    Option String → Prop where
  | named {a : Attribute} {className : String} (ha : a ∈ attributes)
      (hin : a.IsIn attributes uri (bytes "Class")) (htext : reader.text a.value = .ok className) :
      ClassIn reader attributes uri (some className)
  | unnamed (hnone : ∀ a ∈ attributes, ¬ a.IsIn attributes uri (bytes "Class")) :
      ClassIn reader attributes uri none

/-- No two attributes have the same local name in the same namespace. -/
def Apart (attributes : List Attribute) : Prop :=
  ∀ uri localName, ∀ a ∈ attributes, ∀ b ∈ attributes,
    a.IsIn attributes uri localName → b.IsIn attributes uri localName → a = b

/-- The `Class` attributes in the namespaces of the language have values that are text. -/
def AreText (reader : Reader ε) (attributes : List Attribute) : Prop :=
  ∀ uri ∈ [namespace2006, namespace2009], ∀ a ∈ attributes,
    a.IsIn attributes uri (bytes "Class") → ∃ className, reader.text a.value = .ok className

/-- Attributes are apart if their names are, with the namespaces in the place of prefixes. -/
theorem apart_of_nodup (h : (attributes.map (·.key)).Nodup)
    (hnames : (attributes.filterMap (Attribute.expandedName? attributes)).Nodup) :
    Apart attributes := by
  intro uri localName a ha b hb hain hbin
  rw [← Attribute.expandedName?_eq_some h] at hain hbin
  by_contra hne
  have hsymm : Std.Symm fun a b : Attribute =>
      ∀ name, Attribute.expandedName? attributes a = some name →
        ∀ name', Attribute.expandedName? attributes b = some name' → name ≠ name' :=
    ⟨fun a b hab name hname name' hname' => (hab name' hname' name hname).symm⟩
  exact (List.pairwise_filterMap.mp hnames).forall ha hb hne _ hain _ hbin rfl

/-- The class that is named in a namespace does not depend on the attribute that names it. -/
theorem ClassIn.unique {found found' : Option String} (hapart : Apart attributes)
    (h : ClassIn reader attributes uri found) (h' : ClassIn reader attributes uri found') :
    found = found' := by
  cases h with
  | named ha hin htext =>
    cases h' with
    | named ha' hin' htext' =>
      obtain rfl := hapart _ _ _ ha _ ha' hin hin'
      exact congrArg some (Except.ok.inj (htext.symm.trans htext'))
    | unnamed hnone => exact absurd hin (hnone _ ha)
  | unnamed hnone =>
    cases h' with
    | named ha' hin' htext' => exact absurd hin' (hnone _ ha')
    | unnamed _ => rfl

theorem exists_classIn (htext : ∀ a ∈ attributes, a.IsIn attributes uri (bytes "Class") →
      ∃ className, reader.text a.value = .ok className) :
    ∃ found, ClassIn reader attributes uri found := by
  by_cases hclass : ∃ a ∈ attributes, a.IsIn attributes uri (bytes "Class")
  · obtain ⟨a, ha, hin⟩ := hclass
    obtain ⟨className, hname⟩ := htext a ha hin
    exact ⟨some className, .named ha hin hname⟩
  · exact ⟨none, .unnamed fun a ha hin => hclass ⟨a, ha, hin⟩⟩

/-! ## Going through the attributes -/

/-- What becomes of the class that is `known` of a namespace on the way through attributes: those in
the namespace all name `found`, and if there is none it is known already. -/
structure Leads (reader : Reader ε) (t : Tag ε) (uri : List UInt8) (attributes : List Attribute)
    (known found : Option String) : Prop where
  names : ∀ a ∈ attributes, classNamespace? t a = some uri →
    ∃ className, reader.text a.value = .ok className ∧ found = some className
  settled : known = found ∨ ∃ a ∈ attributes, classNamespace? t a = some uri

variable {known found older newer older' newer' : Option String}

theorem Leads.nil (h : Leads reader t uri [] known found) : known = found :=
  h.settled.resolve_right fun ⟨_, ha, _⟩ => List.not_mem_nil ha

/-- An attribute in the namespace makes its value known. -/
theorem Leads.named (h : Leads reader t uri (a :: attributes) known found)
    (ha : classNamespace? t a = some uri) :
    ∃ className, reader.text a.value = .ok className ∧
      Leads reader t uri attributes (some className) found := by
  obtain ⟨className, htext, hfound⟩ := h.names a List.mem_cons_self ha
  exact ⟨className, htext, fun b hb => h.names b (List.mem_cons_of_mem a hb), .inl hfound.symm⟩

/-- Any other attribute is passed over. -/
theorem Leads.skip (h : Leads reader t uri (a :: attributes) known found)
    (ha : classNamespace? t a ≠ some uri) : Leads reader t uri attributes known found where
  names b hb := h.names b (List.mem_cons_of_mem a hb)
  settled := by
    refine h.settled.imp_right fun ⟨b, hb, hin⟩ => ⟨b, (List.mem_cons.mp hb).resolve_left ?_, hin⟩
    rintro rfl
    exact ha hin

theorem namespace2006_ne_namespace2009 : namespace2006 ≠ namespace2009 := by
  decide +kernel

/-- On the way through the attributes the classes of both namespaces come to be known. -/
theorem attributeClass_eq (holder : Leads reader t namespace2006 attributes older older')
    (hnewer : Leads reader t namespace2009 attributes newer newer') :
    attributeClass reader t older newer (attributes.map .ok) = .ok (older'.or newer') := by
  induction attributes generalizing older newer with
  | nil => rw [holder.nil, hnewer.nil, List.map_nil, attributeClass]
  | cons a attributes ih =>
    rw [List.map_cons, attributeClass]
    by_cases h2006 : classNamespace? t a = some namespace2006
    · obtain ⟨className, htext, holder⟩ := holder.named h2006
      have h2009 : classNamespace? t a ≠ some namespace2009 := fun h =>
        namespace2006_ne_namespace2009 (Option.some_inj.mp (h2006.symm.trans h))
      rw [if_pos h2006, htext]
      exact ih holder (hnewer.skip h2009)
    · rw [if_neg h2006]
      by_cases h2009 : classNamespace? t a = some namespace2009
      · obtain ⟨className, htext, hnewer⟩ := hnewer.named h2009
        rw [if_pos h2009, htext]
        exact ih (holder.skip h2006) hnewer
      · rw [if_neg h2009]
        exact ih (holder.skip h2006) (hnewer.skip h2009)

/-- The class that is named in a namespace comes to be known. -/
theorem ClassIn.leads (h : ClassIn reader attributes uri found) (hapart : Apart attributes)
    (hin : ∀ a ∈ attributes, classNamespace? t a = some uri ↔ a.IsIn attributes uri (bytes "Class")) :
    Leads reader t uri attributes none found := by
  cases h with
  | @named a className ha hclass htext =>
    refine ⟨fun b hb hbclass => ⟨className, ?_, rfl⟩, .inr ⟨a, ha, (hin a ha).mpr hclass⟩⟩
    rw [hapart _ _ b hb a ha ((hin b hb).mp hbclass) hclass, htext]
  | unnamed hnone => exact ⟨fun a ha hclass => absurd ((hin a ha).mp hclass) (hnone a ha), .inl rfl⟩

/-! ## The header -/

/-- The `Class` attributes of a tag are those that its declarations put in a namespace. -/
theorem classNamespace?_eq_some (hresolves : reader.ResolvesByDeclarations)
    (hfind : reader.Finds header t behind) (hattributes : t.attributes = attributes.map .ok)
    (hdistinct : (attributes.map (·.key)).Nodup) (huri : uri = namespace2006 ∨ uri = namespace2009)
    (ha : a ∈ attributes) :
    classNamespace? t a = some uri ↔ a.IsIn attributes uri (bytes "Class") := by
  have hfree : uri ≠ Namespace.xmlUri ∧ uri ≠ Namespace.xmlnsUri := by
    rcases huri with rfl | rfl
    · decide +kernel
    · decide +kernel
  rw [← hresolves header t behind attributes hfind hattributes hdistinct a ha uri (bytes "Class")
    hfree.1 hfree.2, classNamespace?]
  rcases t.resolve a.key with ⟨bound, localName⟩
  by_cases hname : localName = bytes "Class"
  · simp [hname]
  · simp [hname]

/-- What comes in front of the first item of interest, and behind it, does not count. -/
theorem firstClass_of_find? {items : List (Item ε)} {item : Item ε}
    (h : items.find? (!·.isOther) = some item) :
    firstClass reader items = firstClass reader [item] := by
  induction items with
  | nil => cases h
  | cons first items ih =>
    cases first with
    | other => exact ih h
    | tag =>
      cases h
      rfl
    | fault =>
      cases h
      rfl

theorem hasExtension_append (stem : String) : hasExtension (stem ++ ".xaml") = true := by
  rw [hasExtension, String.toList_append]
  exact List.isSuffixOf_iff_suffix.mpr (List.suffix_append _ _)

theorem readBy_xaml (stem : String) (flags : UInt32) (input : List UInt8) :
    readBy reader ⟨stem ++ ".xaml", flags, .embedded input⟩ = rootClass reader input :=
  if_pos (hasExtension_append stem)

/-- A descriptor whose first start tag is found is read as the tag's attributes say. -/
theorem readBy_of_finds (stem : String) (flags : UInt32) (h : reader.Finds header t behind) :
    readBy reader ⟨stem ++ ".xaml", flags, .embedded header⟩ =
      attributeClass reader t none none t.attributes :=
  (readBy_xaml stem flags header).trans (firstClass_of_find? h)

/-- A descriptor whose first start tag is found has the class of the older namespace, and otherwise
that of the newer one. -/
theorem exists_class_of_finds (hresolves : reader.ResolvesByDeclarations) (stem : String)
    (flags : UInt32) (hfind : reader.Finds header t behind)
    (hattributes : t.attributes = attributes.map .ok) (hdistinct : (attributes.map (·.key)).Nodup)
    (hapart : Apart attributes) (htext : AreText reader attributes) :
    ∃ older newer, ClassIn reader attributes namespace2006 older ∧
      ClassIn reader attributes namespace2009 newer ∧
      classifyBy reader ⟨stem ++ ".xaml", flags, .embedded header⟩ = older.or newer := by
  obtain ⟨older, holder⟩ := exists_classIn (htext namespace2006 (by simp))
  obtain ⟨newer, hnewer⟩ := exists_classIn (htext namespace2009 (by simp))
  refine ⟨older, newer, holder, hnewer, ?_⟩
  have hin : ∀ uri, uri = namespace2006 ∨ uri = namespace2009 → ∀ a ∈ attributes,
      classNamespace? t a = some uri ↔ a.IsIn attributes uri (bytes "Class") :=
    fun uri huri a => classNamespace?_eq_some hresolves hfind hattributes hdistinct huri
  rw [classifyBy, readBy_of_finds stem flags hfind, hattributes,
    attributeClass_eq (holder.leads hapart (hin _ (.inl rfl)))
      (hnewer.leads hapart (hin _ (.inr rfl)))]

end Descriptor

open Xml Descriptor

/-- **A descriptor is classified by its header.**  Take any reader that stops at the first start tag and
resolves names by the declarations there.  For every embedded resource whose name ends in `.xaml`, if
the reader finds the first start tag and the bytes end with the bracket that closes it:

* more bytes behind it, whatever they are, change nothing;
* if the reader delivers all attributes of the tag, no two of them have the same name or the same local
  name in the same namespace, and `Class` attributes of the language have text for values, the class is
  the one that is named in the older namespace, and if there is none the one that is named in the newer.

A prefix is bound by a declaration anywhere in the tag, to the declaration's value as it is written.  The
order of the attributes plays no part in what is named (`ClassIn.unique`). -/
theorem classify_header {ε : Type} (reader : Reader ε) (hstops : reader.StopsAtTag)
    (hresolves : reader.ResolvesByDeclarations) {header : List UInt8} {tag : Tag ε} (stem : String)
    (flags : UInt32) (hfind : reader.Finds header tag header.length) :
    (∀ more, classifyBy reader ⟨stem ++ ".xaml", flags, .embedded (header ++ more)⟩ =
      classifyBy reader ⟨stem ++ ".xaml", flags, .embedded header⟩) ∧
    ∀ attributes : List Attribute, tag.attributes = attributes.map .ok →
      (attributes.map (·.key)).Nodup → Apart attributes → AreText reader attributes →
      ∃ older newer, ClassIn reader attributes namespace2006 older ∧
        ClassIn reader attributes namespace2009 newer ∧
        classifyBy reader ⟨stem ++ ".xaml", flags, .embedded header⟩ = older.or newer := by
  refine ⟨fun more => ?_, fun attributes hattributes hdistinct hapart htext =>
    exists_class_of_finds hresolves stem flags hfind hattributes hdistinct hapart htext⟩
  have hmore : reader.Finds (header ++ more) tag header.length :=
    hstops header [] tag (by rwa [List.append_nil]) more
  rw [classifyBy, classifyBy, readBy_of_finds stem flags hmore, readBy_of_finds stem flags hfind]

/-! ## A sample -/

namespace Sample

/-- A tag with a bracket in a value, whose names are used in front of their declarations, and which
has a class in either namespace. -/
def pageTag : List UInt8 :=
  bytes "View a:Class=\"Newer\"" ++ bytes " Text=\"a > b\"" ++ bytes " b:Class=\"Older&lt;T&gt;\"" ++
    bytes " xmlns:a=\"" ++ namespace2009 ++ bytes "\" xmlns:b=\"" ++ namespace2006 ++ bytes "\""

/-- The attributes of the tag. -/
def pageAttributes : List Attribute :=
  [⟨bytes "a:Class", bytes "Newer"⟩, ⟨bytes "Text", bytes "a > b"⟩,
    ⟨bytes "b:Class", bytes "Older&lt;T&gt;"⟩, ⟨bytes "xmlns:a", namespace2009⟩,
    ⟨bytes "xmlns:b", namespace2006⟩]

/-- The tag behind an instruction and a comment with brackets in them. -/
def pageHeader : List UInt8 :=
  bytes "<?xml a=\">\"?>" ++ bytes "<!-- <View> -->" ++ byte '<' :: (pageTag ++ [byte '>'])

/-- The tag as the plain reader delivers it. -/
def pageStart : Tag Fault :=
  ⟨pageAttributes.map .ok, Namespace.expand (Namespace.declared pageAttributes)⟩

end Sample

open Sample

theorem classify_header_page :
    Reader.plain.StopsAtTag ∧ Reader.plain.ResolvesByDeclarations ∧
      Reader.plain.Finds pageHeader pageStart pageHeader.length ∧
      pageStart.attributes = pageAttributes.map .ok ∧ (pageAttributes.map (·.key)).Nodup ∧
      Apart pageAttributes ∧ AreText .plain pageAttributes ∧
      classify ⟨"Page" ++ ".xaml", 0, .embedded (pageHeader ++ bytes "<A b:Class=\"Other\"></")⟩ =
        some "Older<T>" := by
  have hformed : Attribute.WellFormed (StartTag.attributePart pageTag) pageAttributes :=
    Attribute.wellFormed_iff.mpr ⟨Attribute.report_eq_map_ok.mpr
      ⟨Attribute.read_eq_iff.mp (by decide +kernel), by decide +kernel⟩, by decide +kernel⟩
  have hfind : Reader.plain.Finds pageHeader pageStart pageHeader.length :=
    Reader.plain_finds_of_wellFormed (by decide +kernel) hformed
  have hapart : Apart pageAttributes := apart_of_nodup hformed.distinct (by decide +kernel)
  have htext : AreText .plain pageAttributes := by
    intro uri _ a ha _
    have hall : ∀ a ∈ pageAttributes, (Entity.text a.value).isOk = true := by decide +kernel
    have hok := hall a ha
    cases hvalue : Entity.text a.value with
    | ok className => exact ⟨className, hvalue⟩
    | error fault =>
      rw [hvalue] at hok
      cases hok
  obtain ⟨hmore, hclass⟩ := classify_header .plain Reader.plain_stopsAtTag
    Reader.plain_resolvesByDeclarations "Page" 0 hfind
  obtain ⟨older, newer, holder, -, hclassify⟩ :=
    hclass pageAttributes rfl hformed.distinct hapart htext
  refine ⟨Reader.plain_stopsAtTag, Reader.plain_resolvesByDeclarations, hfind, rfl, hformed.distinct,
    hapart, htext, ?_⟩
  have hexpanded : Attribute.expandedName? pageAttributes
      ⟨bytes "b:Class", bytes "Older&lt;T&gt;"⟩ = some (namespace2006, bytes "Class") := by
    decide +kernel
  have hnamed : ClassIn .plain pageAttributes namespace2006 (some "Older<T>") :=
    .named (by decide +kernel) ((Attribute.expandedName?_eq_some hformed.distinct).mp hexpanded)
      (by decide +kernel)
  rw [classify, hmore, hclassify, holder.unique hapart hnamed]
  rfl

/-! ## What the plain reader makes of the bytes -/

/-- **The pass classifies a descriptor by the bytes of its first start tag.**  The tag stands in front of
the first bracket outside quotes, bytes behind that bracket change nothing, and if the part behind the
element's name spells attributes as the grammar has them, with names and declarations that are allowed,
they name the class as `classify_header` says. -/
theorem classify_spelled {header tag : List UInt8} (stem : String) (flags : UInt32)
    (hfind : StartTag.find header = .ok (some (tag, []))) :
    StartTag.HasTag header tag [] ∧
    (∀ more, classify ⟨stem ++ ".xaml", flags, .embedded (header ++ more)⟩ =
      classify ⟨stem ++ ".xaml", flags, .embedded header⟩) ∧
    ∀ attributes, Attribute.WellFormed (StartTag.attributePart tag) attributes →
      Apart attributes → AreText .plain attributes →
      ∃ older newer, ClassIn .plain attributes namespace2006 older ∧
        ClassIn .plain attributes namespace2009 newer ∧
        classify ⟨stem ++ ".xaml", flags, .embedded header⟩ = older.or newer := by
  refine ⟨StartTag.hasTag_of_find hfind, fun more => ?_, fun attributes hformed hapart htext =>
    exists_class_of_finds Reader.plain_resolvesByDeclarations stem flags
      (Reader.plain_finds_of_wellFormed hfind hformed) rfl hformed.distinct hapart htext⟩
  have hitems := Reader.plain_find?_items hfind
  have hitems' : (Reader.plain.items (header ++ more)).find? (!·.isOther) =
      some (StartTag.item tag (header.length - ([] : List UInt8).length)) := by
    obtain ⟨front, hfront, hmore⟩ := StartTag.find_front hfind
    rw [List.append_nil] at hfront
    rw [hfront, Reader.plain_find?_items (hmore more)]
    simp
  rw [classify, classify, classifyBy, classifyBy, readBy_xaml, readBy_xaml, rootClass, rootClass,
    firstClass_of_find? hitems, firstClass_of_find? hitems']

end DualInit
