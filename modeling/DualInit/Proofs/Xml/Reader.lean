import DualInit.Xml.Plain
import DualInit.Proofs.Xml.Attributes

/-!
# What is asked of a reader

Two laws are all that has to be known of a reader to say which class a page was compiled for.  When it
reports a start tag it has looked no further than the tag's closing bracket (`Reader.StopsAtTag`), and
it tells the namespaces of names by the declarations in the tag (`Reader.ResolvesByDeclarations`).

The second law leaves out the reserved namespaces, whose prefixes need no declaration, and tags with an
attribute that cannot be read or is declared twice, of which readers make what they like.

The plain reader keeps both laws.  It finds a tag where `StartTag.find` does, unless what the tag
declares is not allowed (`Reader.plain_finds_iff`).
-/

namespace DualInit
namespace Xml

variable {ε : Type}

/-- Whether an item is of no interest in front of a start tag. -/
def Item.isOther : Item ε → Bool
  | .other => true
  | _ => false

@[simp] theorem Item.isOther_other : (Item.other : Item ε).isOther = true := rfl

@[simp] theorem Item.isOther_fault (fault : ε) : (Item.fault fault).isOther = false := rfl

namespace Reader

/-- The first start tag that a reader reports, and how many bytes of the input end with the bracket that
closes it. -/
def Finds (reader : Reader ε) (input : List UInt8) (tag : Tag ε) (behind : Nat) : Prop :=
  (reader.items input).find? (!·.isOther) = some (.tag tag behind)

/-- A reader has not looked past the closing bracket of the first start tag when it reports the tag. -/
def StopsAtTag (reader : Reader ε) : Prop :=
  ∀ front rest tag, reader.Finds (front ++ rest) tag front.length →
    ∀ more, reader.Finds (front ++ more) tag front.length

/-- A name in the first start tag has the namespace that a declaration in the tag binds its prefix to. -/
def ResolvesByDeclarations (reader : Reader ε) : Prop :=
  ∀ input tag behind (attributes : List Attribute), reader.Finds input tag behind →
    tag.attributes = attributes.map .ok → (attributes.map (·.key)).Nodup →
    ∀ a ∈ attributes, ∀ uri localName, uri ≠ Namespace.xmlUri → uri ≠ Namespace.xmlnsUri →
      (tag.resolve a.key = (some uri, localName) ↔ a.IsIn attributes uri localName)

end Reader

/-! ## The plain reader -/

variable {input tag rest front : List UInt8} {behind behind' : Nat} {t : Tag Fault}

namespace StartTag

/-- A tag is reported if the bindings that its declarations make are allowed. -/
theorem item_eq_tag : item tag behind = .tag t behind' ↔
    ∃ bindings, Namespace.bindings (Attribute.read (attributePart tag)).1 = .ok bindings ∧
      t = ⟨Attribute.report (attributePart tag), Namespace.expand bindings⟩ ∧ behind = behind' := by
  unfold item
  cases Namespace.bindings (Attribute.read (attributePart tag)).1 with
  | error fault => simp
  | ok bindings => simp [eq_comm]

theorem isOther_item : (item tag behind).isOther = false := by
  unfold item
  split
  · rfl
  · rfl

end StartTag

namespace Reader

/-- The plain reader reports a start tag once it has passed over the markup in front of it. -/
theorem plain_find?_items (h : StartTag.find input = .ok (some (tag, rest))) :
    (plain.items input).find? (!·.isOther) =
      some (StartTag.item tag (input.length - rest.length)) := by
  simp [plain, List.find?_append, h, StartTag.isOther_item]

theorem plain_finds_iff : plain.Finds input t behind ↔
    ∃ tag rest, StartTag.find input = .ok (some (tag, rest)) ∧
      StartTag.item tag (input.length - rest.length) = .tag t behind := by
  unfold Finds
  rcases hfind : StartTag.find input with fault | _ | ⟨tag, rest⟩
  · simp [plain, List.find?_append, hfind]
  · simp [plain, hfind]
  · simp [plain_find?_items hfind]

/-- The plain reader finds a tag with well-formed attributes where it stands, and delivers them all. -/
theorem plain_finds_of_wellFormed {attributes : List Attribute}
    (hfind : StartTag.find input = .ok (some (tag, [])))
    (h : Attribute.WellFormed (StartTag.attributePart tag) attributes) :
    plain.Finds input ⟨attributes.map .ok, Namespace.expand (Namespace.declared attributes)⟩
      input.length := by
  obtain ⟨hreport, hbindings⟩ := Attribute.wellFormed_iff.mp h
  refine plain_finds_iff.mpr ⟨tag, [], hfind, StartTag.item_eq_tag.mpr
    ⟨Namespace.declared attributes, ?_, by rw [hreport], rfl⟩⟩
  rw [Attribute.read_eq_iff.mpr h.spells]
  exact hbindings

/-- The bracket that closes the tag stands at the end of what is in front of the unread input. -/
theorem plain_finds_front (h : plain.Finds (front ++ rest) t front.length) (more : List UInt8) :
    ∃ tag, StartTag.find (front ++ more) = .ok (some (tag, more)) ∧
      StartTag.item tag front.length = .tag t front.length := by
  obtain ⟨tag, unread, hfind, hitem⟩ := plain_finds_iff.mp h
  obtain ⟨bindings, hbindings, ht, hlength⟩ := StartTag.item_eq_tag.mp hitem
  obtain ⟨before, hsplit, hbefore⟩ := StartTag.find_front hfind
  obtain ⟨rfl, -⟩ := List.append_inj hsplit (by rw [← hlength, hsplit]; simp)
  exact ⟨tag, hbefore more, StartTag.item_eq_tag.mpr ⟨bindings, hbindings, ht, rfl⟩⟩

theorem plain_stopsAtTag : plain.StopsAtTag := by
  intro front rest t h more
  obtain ⟨tag, hfind, hitem⟩ := plain_finds_front h more
  refine plain_finds_iff.mpr ⟨tag, more, hfind, ?_⟩
  rw [List.length_append, Nat.add_sub_cancel]
  exact hitem

theorem plain_resolvesByDeclarations : plain.ResolvesByDeclarations := by
  intro input t behind attributes h hattributes hdistinct a _ uri localName hxml hxmlns
  obtain ⟨tag, rest, -, hitem⟩ := plain_finds_iff.mp h
  obtain ⟨bindings, hbindings, rfl, -⟩ := StartTag.item_eq_tag.mp hitem
  have hread := Attribute.read_eq_iff.mpr (Attribute.report_eq_map_ok.mp hattributes).1
  rw [hread] at hbindings
  obtain rfl := Namespace.eq_declared_of_bindings hbindings
  exact Attribute.expand_eq_some hdistinct hxml hxmlns

end Reader
end Xml
end DualInit
