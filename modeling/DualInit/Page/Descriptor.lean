import DualInit.Metadata.Resource
import DualInit.Xml.Plain

/-!
# Page descriptors

A page is described by an embedded resource whose name ends in `.xaml`.  Its first start tag
names the class that the page was compiled for, in an attribute `Class` of one of the two
namespaces of the language; if both are present the older one counts, and of several in one
namespace the last.  Nothing behind that tag is looked at.

Any reader of documents will do to find the tag.  The pass uses the plain one.

A descriptor whose header cannot be read names no class; that it cannot be read is an answer of
its own, so that it can be reported.
-/

namespace DualInit
namespace Descriptor

/-- The older namespace of the language. -/
def namespace2006 : List UInt8 :=
  Xml.bytes "http://schemas.microsoft.com/winfx/2006/xaml"

/-- The newer namespace of the language. -/
def namespace2009 : List UInt8 :=
  Xml.bytes "http://schemas.microsoft.com/winfx/2009/xaml"

/-- The end of the names of descriptors. -/
def extension : String := ".xaml"

variable {ε : Type}

/-- The namespace of a `Class` attribute, if it has one. -/
def classNamespace? (tag : Xml.Tag ε) (a : Xml.Attribute) : Option (List UInt8) :=
  let (uri, localName) := tag.resolve a.key
  if localName = Xml.bytes "Class" then uri else none

/-- The class that attributes name, if the attributes in front of them named `older` and `newer` in
the two namespaces. -/
def attributeClass (reader : Xml.Reader ε) (tag : Xml.Tag ε) :
    (older newer : Option String) → List (Except ε Xml.Attribute) → Except ε (Option String)
  | older, newer, [] => .ok (older.or newer)
  | _, _, .error fault :: _ => .error fault
  | older, newer, .ok a :: rest =>
    if classNamespace? tag a = some namespace2006 then do
      attributeClass reader tag (some (← reader.text a.value)) newer rest
    else if classNamespace? tag a = some namespace2009 then do
      attributeClass reader tag older (some (← reader.text a.value)) rest
    else attributeClass reader tag older newer rest

/-- The class that the first start tag among the items names. -/
def firstClass (reader : Xml.Reader ε) : List (Xml.Item ε) → Except ε (Option String)
  | [] => .ok none
  | .tag tag _ :: _ => attributeClass reader tag none none tag.attributes
  | .other :: rest => firstClass reader rest
  | .fault fault :: _ => .error fault

/-- The class that the first start tag of a document names. -/
def rootClass (reader : Xml.Reader ε) (input : List UInt8) : Except ε (Option String) :=
  firstClass reader (reader.items input)

/-- Whether a name ends the way the names of descriptors do. -/
def hasExtension (name : String) : Bool :=
  extension.toList.isSuffixOf name.toList

/-- The class that a resource was compiled for, as a reader has it.  A resource that cannot be a
descriptor is not looked into. -/
def readBy (reader : Xml.Reader ε) (r : Resource) : Except ε (Option String) :=
  match r.embedded? with
  | some input => if hasExtension r.name then rootClass reader input else .ok none
  | none => .ok none

/-- The class that a resource was compiled for. -/
def read (r : Resource) : Except Xml.Fault (Option String) :=
  readBy .plain r

/-- The class that a resource was compiled for as a reader has it, or `none` if it describes no class
or cannot be read. -/
def classifyBy (reader : Xml.Reader ε) (r : Resource) : Option String :=
  match readBy reader r with
  | .ok className => className
  | .error _ => none

end Descriptor

/-- The class that a resource was compiled for, or `none` if it describes no class or cannot be
read. -/
def classify (r : Resource) : Option String :=
  Descriptor.classifyBy .plain r

end DualInit
