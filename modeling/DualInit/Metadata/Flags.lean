/-!
# Attribute flags

Methods, bodies, types and resources carry words of attribute bits.  Each kind of word has a
table of named constants; some constants are masks or values of several bits, and `names` lists
all constants whose bits are all set, in the order of the table.
-/

namespace DualInit

/-- The named constants of a kind of attribute word, in the order in which they are listed. -/
structure FlagTable where
  /-- Names and bits. -/
  constants : List (String × Nat)
deriving DecidableEq, Repr, Inhabited

namespace FlagTable

/-- All bits that occur in some constant. -/
def union (t : FlagTable) : Nat :=
  t.constants.foldl (fun bits c => bits ||| c.2) 0

/-- The bits of a word that occur in some constant. -/
def truncate (t : FlagTable) (bits : Nat) : Nat :=
  bits &&& t.union

/-- Whether all bits of a word occur in some constant. -/
def knows (t : FlagTable) (bits : Nat) : Bool :=
  t.truncate bits == bits

/-- The constants whose bits are all set. -/
def names (t : FlagTable) (bits : Nat) : List String :=
  (t.constants.filter fun c => bits &&& c.2 == c.2).map Prod.fst

end FlagTable

/-! ## Methods -/

namespace MethodFlags

/-- The bits that say who may call a method. -/
def accessMask : UInt16 := 0x0007

/-- The method is defined on the type and not on its objects. -/
def static : UInt16 := 0x0010

/-- The name is special to the runtime: constructors have both of these bits. -/
def specialNames : UInt16 := 0x0800 ||| 0x1000

/-- A constructor that everybody may call: public, hiding by signature, specially named. -/
def instanceConstructor : UInt16 := 0x0006 ||| 0x0080 ||| specialNames

/-- Who may call a method. -/
def access (bits : UInt16) : UInt16 :=
  bits &&& accessMask

/-- Whether all bits of a mask are set. -/
def has (bits mask : UInt16) : Bool :=
  bits &&& mask == mask

/-- Attributes of methods. -/
def table : FlagTable :=
  ⟨[("ACCESS_MASK", 0x0007), ("PRIVATE", 0x0001), ("FAM_AND_ASSEM", 0x0002), ("ASSEM", 0x0003),
    ("FAMILY", 0x0004), ("FAM_OR_ASSEM", 0x0005), ("PUBLIC", 0x0006), ("STATIC", 0x0010),
    ("FINAL", 0x0020), ("VIRTUAL", 0x0040), ("HIDE_BY_SIG", 0x0080), ("NEW_SLOT", 0x0100),
    ("STRICT", 0x0200), ("ABSTRACT", 0x0400), ("SPECIAL_NAME", 0x0800),
    ("RT_SPECIAL_NAME", 0x1000), ("PINVOKE_IMPL", 0x2000), ("HAS_SECURITY", 0x4000),
    ("REQUIRE_SEC_OBJECT", 0x8000)]⟩

/-- Attributes of the implementation of methods. -/
def implementationTable : FlagTable :=
  ⟨[("NATIVE", 0x0001), ("RUNTIME", 0x0003), ("UNMANAGED", 0x0004), ("NO_INLINING", 0x0008),
    ("FORWARD_REF", 0x0010), ("SYNCHRONIZED", 0x0020), ("NO_OPTIMIZATION", 0x0040),
    ("PRESERVE_SIG", 0x0080), ("AGGRESSIVE_INLINING", 0x0100), ("INTERNAL_CALL", 0x1000)]⟩

end MethodFlags

/-! ## Bodies -/

namespace BodyFlags

/-- The header is one byte. -/
def tinyFormat : Nat := 0x2

/-- The header is twelve bytes. -/
def fatFormat : Nat := 0x3

/-- Locals start out as zero. -/
def initLocals : Nat := 0x10

/-- Attributes in the header of a body. -/
def table : FlagTable :=
  ⟨[("TINY_FORMAT", tinyFormat), ("FAT_FORMAT", fatFormat), ("MORE_SECTS", 0x8),
    ("INIT_LOCALS", initLocals)]⟩

end BodyFlags

/-! ## Types and resources -/

namespace TypeFlags

/-- A type that everybody sees. -/
def visible : UInt32 := 0x00000001

/-- A nested type that everybody sees who sees the enclosing one. -/
def nestedVisible : UInt32 := 0x00000002

/-- Attributes of types. -/
def table : FlagTable :=
  ⟨[("VISIBILITY_MASK", 0x00000007), ("PUBLIC", 0x00000001), ("NESTED_PUBLIC", 0x00000002),
    ("NESTED_PRIVATE", 0x00000003), ("INTERFACE", 0x00000020), ("ABSTRACT", 0x00000080),
    ("SEALED", 0x00000100), ("SPECIAL_NAME", 0x00000400), ("IMPORT", 0x00001000),
    ("SERIALIZABLE", 0x00002000), ("BEFORE_FIELD_INIT", 0x00100000)]⟩

end TypeFlags

namespace ResourceFlags

/-- Attributes of resources. -/
def table : FlagTable :=
  ⟨[("PUBLIC", 0x0001), ("PRIVATE", 0x0002)]⟩

end ResourceFlags

end DualInit
