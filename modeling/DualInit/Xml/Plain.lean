import DualInit.Xml.StartTag
import DualInit.Xml.Namespace
import DualInit.Xml.Entity

/-!
# The plain reader

This reader validates nothing that is not needed to read the first start tag, and goes no further
than that tag.  A piece of markup that it passes over is an item; text in front of the tag is none.

The tag is reported if what it declares keeps to the rules for reserved prefixes.  Its declarations
hold for all names in it, those in front of them included.
-/

namespace DualInit
namespace Xml

/-- The tag with these bytes between its brackets, and its end behind so many bytes. -/
def StartTag.item (tag : List UInt8) (behind : Nat) : Item Fault :=
  match Namespace.bindings (Attribute.read (attributePart tag)).1 with
  | .error fault => .fault fault
  | .ok bindings => .tag ⟨Attribute.report (attributePart tag), Namespace.expand bindings⟩ behind

/-- The reader that goes up to the first start tag. -/
def Reader.plain : Reader Fault where
  items input :=
    List.replicate (StartTag.passed input) .other ++
      match StartTag.find input with
      | .error fault => [.fault fault]
      | .ok none => []
      | .ok (some (tag, rest)) => [StartTag.item tag (input.length - rest.length)]
  text := Entity.text

end Xml
end DualInit
