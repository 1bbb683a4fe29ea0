import DualInit.Metadata.TypeDef

/-!
# References

Rows for what other assemblies define: types, by the assembly that defines them and their name,
and methods of such types, by name and signature.
-/

namespace DualInit

/-- A type that another assembly defines. -/
structure TypeRef where
  token : Token
  scope : String
  spaceName : String
  name : String
deriving DecidableEq, Repr, Inhabited

/-- The name in the namespace. -/
def TypeRef.qualifiedName (r : TypeRef) : String :=
  qualify r.spaceName r.name

/-- A method of a type that another assembly defines. -/
structure MemberRef where
  token : Token
  parent : Token
  name : String
  signature : Signature
deriving DecidableEq, Repr, Inhabited

/-- Whether the reference is to this method. -/
def MemberRef.isTo (parent : Token) (name : String) (signature : Signature) (r : MemberRef) :
    Bool :=
  r.parent == parent && r.name == name && r.signature == signature

end DualInit
