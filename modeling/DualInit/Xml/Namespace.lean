import DualInit.Xml.Attribute

/-!
# Namespaces

Attributes of the form `xmlns:p="v"` bind the prefix `p` of names in the tag to the namespace
`v`, wherever in the tag they stand.  Of several bindings of a prefix the last one counts, and a
binding to the empty namespace takes the binding away.  The namespace of names without a prefix,
which `xmlns` alone binds, plays no part for attributes.

Two prefixes are bound from the start and reserved together with their namespaces: `xml` can be bound
to its own namespace only, `xmlns` cannot be bound at all, and no other prefix can be bound to either
namespace.  This holds for the empty prefix of `xmlns:="v"` too.  Otherwise that form says the
same as `xmlns="v"`, so names that start with a colon have no namespace either.
-/

namespace DualInit
namespace Xml
namespace Namespace

/-- The namespace of the prefix `xml`. -/
def xmlUri : List UInt8 :=
  bytes "http://www.w3.org/XML/1998/namespace"

/-- The namespace of the prefix `xmlns`. -/
def xmlnsUri : List UInt8 :=
  bytes "http://www.w3.org/2000/xmlns/"

/-- The prefix that an attribute binds, if it binds one; it may be empty. -/
def boundPrefix? (a : Attribute) : Option (List UInt8) :=
  match Attribute.splitKey a.key with
  | (some p, name) => if p = bytes "xmlns" then some name else none
  | (none, _) => none

/-- Whether a binding keeps to the rules for reserved prefixes and namespaces. -/
def isAllowed (name uri : List UInt8) : Bool :=
  if name = bytes "xml" then uri == xmlUri
  else name != bytes "xmlns" && uri != xmlUri && uri != xmlnsUri

/-- The bindings that attributes make, in order. -/
def bindings (attributes : List Attribute) : Except Fault (List (List UInt8 × List UInt8)) :=
  let bound := attributes.filterMap fun a => (boundPrefix? a).map (·, a.value)
  if bound.all fun (name, uri) => isAllowed name uri then .ok bound
  else .error .reservedNamespace

/-- The namespace that a prefix is bound to.  The empty prefix never stands for one. -/
def resolve? (bindings : List (List UInt8 × List UInt8)) (name : List UInt8) :
    Option (List UInt8) :=
  if name = [] then none else (bindings.reverse.lookup name).filter (· != [])

/-- The bindings that every document has. -/
def reserved : List (List UInt8 × List UInt8) :=
  [(bytes "xml", xmlUri), (bytes "xmlns", xmlnsUri)]

/-- The namespace of an attribute's name, if it has one, and the local name. -/
def expand (bindings : List (List UInt8 × List UInt8)) (key : List UInt8) :
    Option (List UInt8) × List UInt8 :=
  match Attribute.splitKey key with
  | (some p, localName) => (resolve? (reserved ++ bindings) p, localName)
  | (none, localName) => (none, localName)

end Namespace
end Xml
end DualInit
