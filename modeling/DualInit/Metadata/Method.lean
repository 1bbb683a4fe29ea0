import DualInit.Signature
import DualInit.Il.Sequence
import DualInit.Metadata.Flags

/-!
# Methods

A method definition with its attributes, its signature, the names of its parameters and its
body.  A constructor is a method with a constructor's name whose name is marked as special; an
instance constructor is one that runs on an object.
-/

namespace DualInit

/-- The name of instance constructors. -/
def constructorName : String := ".ctor"

/-- The name of type initializers. -/
def typeInitializerName : String := ".cctor"

/-- A name for a parameter. -/
structure Param where
  /-- The place of the parameter in the signature, counted from 1. -/
  sequence : UInt16
  name : String
deriving DecidableEq, Repr, Inhabited

/-- The code of a method. -/
structure MethodBody where
  instructions : Sequence
  /-- Locals start out as zero. -/
  initLocals : Bool
deriving DecidableEq, Repr, Inhabited

/-- A method that a type owns. -/
structure MethodDef where
  token : Token
  name : String
  flags : UInt16
  /-- Attributes of the implementation. -/
  implFlags : UInt16
  signature : Signature
  params : List Param
  /-- The code; methods provided elsewhere have none. -/
  body : Option MethodBody
deriving DecidableEq, Repr, Inhabited

namespace MethodDef

/-- The greatest place in a signature that a parameter's name can hold. -/
def sequenceLimit : Nat := 65535

/-- Names the parameters at the next places; places that are too great for a name's row are cut
to the greatest one. -/
def withParams (names : List String) (m : MethodDef) : MethodDef :=
  let params := names.mapIdx fun i name =>
    ⟨UInt16.ofNat (min (m.params.length + i + 1) sequenceLimit), name⟩
  { m with params := m.params ++ params }

/-- Whether the method has a constructor's name, marked as special. -/
def isConstructor (m : MethodDef) : Bool :=
  (m.name == constructorName || m.name == typeInitializerName) &&
    MethodFlags.has m.flags MethodFlags.specialNames

/-- Whether the method is a constructor that runs on an object. -/
def isInstanceConstructor (m : MethodDef) : Bool :=
  m.name == constructorName && m.isConstructor && !MethodFlags.has m.flags MethodFlags.static &&
    m.signature.hasThis

/-- Whether the method takes nothing apart from the object. -/
def isParameterless (m : MethodDef) : Bool :=
  m.signature.isParameterless

/-- Whether the method takes exactly these parameters. -/
def hasParams (params : List TypeSig) (m : MethodDef) : Bool :=
  m.signature.params == params

end MethodDef
end DualInit
