/-!
# Faults of a document header

The header of a document is everything up to the end of its first start tag.  Only a few things
can be wrong with it, because nothing is validated that is not needed to read the tag.  The
bytes that structure a header are ASCII, and so are its blanks.
-/

namespace DualInit
namespace Xml

/-- Why a header cannot be read. -/
inductive Fault where
  | unterminated
  /-- An end tag stands in front of the first start tag. -/
  | strayEndTag
  /-- `<!` does not begin a comment, a character data section or a document type. -/
  | unknownDeclaration
  /-- A document type does not say which. -/
  | emptyDocumentType
  /-- A processing instruction is only a question mark. -/
  | emptyInstruction
  /-- An attribute has no value, or its value is not quoted. -/
  | malformedAttribute
  | duplicateAttribute
  /-- A reserved namespace is bound to a wrong name, or a reserved name to a wrong namespace. -/
  | reservedNamespace
  | invalidText
  /-- A value has an entity that stands for no character. -/
  | unknownEntity
deriving DecidableEq, Repr, Inhabited

/-- The byte of an ASCII character. -/
def byte (c : Char) : UInt8 :=
  UInt8.ofNat c.toNat

/-- The bytes of ASCII text. -/
def bytes (s : String) : List UInt8 :=
  s.toList.map byte

/-- Space, tabulator, carriage return and line feed. -/
def isBlank (b : UInt8) : Bool :=
  b == 0x20 || b == 0x09 || b == 0x0D || b == 0x0A

end Xml
end DualInit
