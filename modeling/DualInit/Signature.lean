import DualInit.Token

/-!
# Signatures

The type of a method: whether it is called on an object, what it returns and what it takes.
Only the types that the methods of interest are made of are told apart; classes and value types
are named by the token of their definition or reference.
-/

namespace DualInit

/-- A type in a signature. -/
inductive TypeSig where
  /-- Nothing; only as what a method returns. -/
  | void
  | bool
  | char
  | int32
  | int64
  | float64
  | string
  | object
  /-- A class, by the token of its definition or reference. -/
  | reference (type : Token)
  /-- A value type, by the token of its definition or reference. -/
  | value (type : Token)
deriving DecidableEq, Repr, Inhabited

namespace TypeSig

/-- How a type is written. -/
def text : TypeSig → String
  | void => "void"
  | bool => "bool"
  | char => "char"
  | int32 => "int32"
  | int64 => "int64"
  | float64 => "float64"
  | string => "string"
  | object => "object"
  | reference type => "class " ++ type.text
  | value type => "valuetype " ++ type.text

instance : ToString TypeSig := ⟨text⟩

end TypeSig

/-- The type of a method. -/
structure Signature where
  /-- The method is called on an object, which is its argument 0. -/
  hasThis : Bool
  returnType : TypeSig
  /-- What the method takes, apart from the object. -/
  params : List TypeSig
deriving DecidableEq, Repr, Inhabited

namespace Signature

/-- Called on an object, taking and returning nothing. -/
def instanceVoid : Signature :=
  ⟨true, .void, []⟩

/-- Called on an object and returning a value. -/
def instanceReturning (returnType : TypeSig) : Signature :=
  ⟨true, returnType, []⟩

/-- Called on an object with parameters, returning nothing. -/
def instanceWithParams (params : List TypeSig) : Signature :=
  ⟨true, .void, params⟩

/-- Whether the method returns a value. -/
def returnsValue (s : Signature) : Bool :=
  s.returnType != .void

/-- How many values a call takes from the stack, the object included. -/
def callPops (s : Signature) : Nat :=
  s.params.length + if s.hasThis then 1 else 0

/-- Whether the method takes nothing apart from the object. -/
def isParameterless (s : Signature) : Bool :=
  s.params.isEmpty

/-- How a signature is written. -/
def text (s : Signature) : String :=
  (if s.hasThis then "instance " else "") ++ s.returnType.text ++ " (" ++
    String.intercalate ", " (s.params.map TypeSig.text) ++ ")"

instance : ToString Signature := ⟨text⟩

end Signature
end DualInit
