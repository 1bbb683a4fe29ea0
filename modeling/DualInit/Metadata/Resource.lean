/-!
# Resources

What an assembly carries along besides code.  The bytes of a resource stand in the assembly
itself, in a file beside it, or in another assembly.
-/

namespace DualInit

/-- Where the bytes of a resource are. -/
inductive ResourceData where
  /-- In the assembly itself. -/
  | embedded (bytes : List UInt8)
  /-- In a file beside it. -/
  | linked (file : String)
  /-- In another assembly. -/
  | elsewhere (assembly : String)
deriving DecidableEq, Repr, Inhabited

/-- A named resource. -/
structure Resource where
  name : String
  flags : UInt32
  /-- The bytes, or where they are. -/
  data : ResourceData
deriving DecidableEq, Repr, Inhabited

/-- The bytes of an embedded resource. -/
def Resource.embedded? (r : Resource) : Option (List UInt8) :=
  match r.data with
  | .embedded bytes => some bytes
  | _ => none

end DualInit
