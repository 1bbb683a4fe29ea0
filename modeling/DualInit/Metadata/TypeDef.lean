import DualInit.Error
import DualInit.Metadata.Method
import DualInit.Metadata.Rows

/-!
# Types

A type definition and the methods it owns.  Methods are found by token or by a property, and in
both cases the first one in declaration order counts.
-/

namespace DualInit

/-- The name of a type in its namespace; the global namespace has no name. -/
def qualify (spaceName name : String) : String :=
  if spaceName = "" then name else spaceName ++ "." ++ name

/-- A type definition. -/
structure TypeDef where
  token : Token
  /-- The namespace, empty for nested types and in the global namespace. -/
  spaceName : String
  /-- The name in the namespace or in the enclosing type. -/
  name : String
  flags : UInt32
  extends? : Option Token
  /-- The type that a nested type stands in. -/
  enclosing? : Option Token
  /-- The methods, in declaration order. -/
  methods : List MethodDef
deriving DecidableEq, Repr, Inhabited

namespace TypeDef

/-- The name in the namespace, without enclosing types. -/
def qualifiedName (t : TypeDef) : String :=
  qualify t.spaceName t.name

/-- The method with a token. -/
def method? (t : TypeDef) (token : Token) : Option MethodDef :=
  t.methods.find? (·.token == token)

/-- The instance constructor that takes nothing. -/
def parameterlessConstructor? (t : TypeDef) : Option MethodDef :=
  t.methods.find? fun m => m.isInstanceConstructor && m.isParameterless

/-- Changes the method with a token. -/
def updateMethod (token : Token) (change : MethodDef → MethodDef) (t : TypeDef) :
    Except Error TypeDef :=
  match Rows.updateFirst (·.token == token) (fun m => .ok (change m)) t.methods with
  | none => .error (.methodNotFound token)
  | some methods => do return { t with methods := ← methods }

/-- Appends a method; its token must not be in use on this type. -/
def pushMethod (m : MethodDef) (t : TypeDef) : Except Error TypeDef :=
  if (t.method? m.token).isSome then .error (.duplicateMethod m.token)
  else .ok { t with methods := t.methods ++ [m] }

/-- How many methods have a name. -/
def countNamed (name : String) (t : TypeDef) : Nat :=
  t.methods.countP (·.name == name)

/-- The first method of a name. -/
def methodNamed? (name : String) (t : TypeDef) : Option MethodDef :=
  t.methods.find? (·.name == name)

end TypeDef
end DualInit
