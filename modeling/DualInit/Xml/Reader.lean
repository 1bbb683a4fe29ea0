/-!
# Readers of documents

A reader goes through the bytes of a document and reports what stands there, start tags among other
things.  The classification of pages is written against any reader, as it has no part in how
documents are read: it asks for the attributes of a tag, for the namespaces of their names, and for
the text of their values.
-/

namespace DualInit
namespace Xml

/-- A name with its value, as they are written. -/
structure Attribute where
  key : List UInt8
  value : List UInt8
deriving DecidableEq, Repr, Inhabited

/-- What a reader says of a start tag; `ε` are the faults that it can find. -/
structure Tag (ε : Type) where
  /-- The attributes in order.  A fault stands where there is no attribute to be had. -/
  attributes : List (Except ε Attribute)
  /-- The namespace of an attribute's name, if it has one, and the local name. -/
  resolve : List UInt8 → Option (List UInt8) × List UInt8

/-- What a reader reports. -/
inductive Item (ε : Type) where
  /-- A start tag, which may be its own end.  Its closing bracket is the last of the first `behind`
  bytes of the document. -/
  | tag (tag : Tag ε) (behind : Nat)
  /-- Anything else: text, a comment, an instruction and the like. -/
  | other
  | fault (fault : ε)

/-- A reader of documents. -/
structure Reader (ε : Type) where
  /-- What stands in a document, from its first byte to its last. -/
  items : List UInt8 → List (Item ε)
  /-- The text that the value of an attribute stands for. -/
  text : List UInt8 → Except ε String

end Xml
end DualInit
