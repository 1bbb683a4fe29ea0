import DualInit.Metadata.Reference
import DualInit.Metadata.Resource
import DualInit.Symbol.Table
import DualInit.Text.Split

/-!
# Sections

One module of an assembly with everything it owns: resources, types with their methods,
references and, if they were read, debug symbols.

Rows that are added take the number after the greatest one in use in their table, and a
reference that exists already is used again.  Types have full names: the name in the namespace,
and for a nested type the full name of the enclosing type, a separator, and its own name.
`findType` follows such a name inwards and `typeName` puts it together from the inside out.
-/

namespace DualInit

/-- A module of an assembly. -/
structure Section where
  name : String
  /-- Resources, in stored order. -/
  resources : List Resource
  /-- Types, in stored order. -/
  types : List TypeDef
  typeRefs : List TypeRef
  memberRefs : List MemberRef
  symbols : Option SymbolTable
deriving DecidableEq, Repr, Inhabited

namespace Section

/-- A section that owns nothing. -/
def empty (name : String) : Section :=
  ⟨name, [], [], [], [], none⟩

/-! ## Looking up rows -/

/-- The type under a token. -/
def typeDef? (s : Section) (token : Token) : Option TypeDef :=
  s.types.find? (·.token == token)

/-- The type reference under a token. -/
def typeRef? (s : Section) (token : Token) : Option TypeRef :=
  s.typeRefs.find? (·.token == token)

/-- The member reference under a token. -/
def memberRef? (s : Section) (token : Token) : Option MemberRef :=
  s.memberRefs.find? (·.token == token)

/-- All methods, in the order of the types that own them. -/
def methods (s : Section) : List MethodDef :=
  s.types.flatMap (·.methods)

/-- The method under a token, with the type that owns it. -/
def method? (s : Section) (token : Token) : Option (TypeDef × MethodDef) :=
  s.types.findSome? fun t => (t.method? token).map (t, ·)

/-! ## Adding rows -/

/-- Appends a resource. -/
def addResource (r : Resource) (s : Section) : Section :=
  { s with resources := s.resources ++ [r] }

/-- The token that the next type takes. -/
def nextTypeToken (s : Section) : Token :=
  .ofParts Token.typeDefTable (Rows.next (s.types.map (·.token)))

/-- The token that the next method takes. -/
def nextMethodToken (s : Section) : Token :=
  .ofParts Token.methodDefTable (Rows.next (s.methods.map (·.token)))

/-- The token that the next type reference takes. -/
def nextTypeRefToken (s : Section) : Token :=
  .ofParts Token.typeRefTable (Rows.next (s.typeRefs.map (·.token)))

/-- The token that the next member reference takes. -/
def nextMemberRefToken (s : Section) : Token :=
  .ofParts Token.memberRefTable (Rows.next (s.memberRefs.map (·.token)))

/-- Defines a type in a namespace. -/
def defineType (spaceName name : String) (extends? : Option Token) (s : Section) :
    Token × Section :=
  let token := s.nextTypeToken
  let type := ⟨token, spaceName, name, TypeFlags.visible, extends?, none, []⟩
  (token, { s with types := s.types ++ [type] })

/-- Defines a type inside another one. -/
def defineNestedType (enclosing : Token) (name : String) (extends? : Option Token) (s : Section) :
    Except Error (Token × Section) :=
  if (s.typeDef? enclosing).isNone then .error (.typeNotFound enclosing)
  else
    let token := s.nextTypeToken
    let type := ⟨token, "", name, TypeFlags.nestedVisible, extends?, some enclosing, []⟩
    .ok (token, { s with types := s.types ++ [type] })

/-- Refers to a type of another assembly, by an existing reference if there is one. -/
def addTypeRef (scope spaceName name : String) (s : Section) : Token × Section :=
  let same (r : TypeRef) := r.scope == scope && r.spaceName == spaceName && r.name == name
  match s.typeRefs.find? same with
  | some r => (r.token, s)
  | none =>
    let token := s.nextTypeRefToken
    (token, { s with typeRefs := s.typeRefs ++ [⟨token, scope, spaceName, name⟩] })

/-- Refers to a method of another assembly's type, by an existing reference if there is one. -/
def importMethod (parent : Token) (name : String) (signature : Signature) (s : Section) :
    Token × Section :=
  match s.memberRefs.find? (·.isTo parent name signature) with
  | some r => (r.token, s)
  | none =>
    let token := s.nextMemberRefToken
    (token, { s with memberRefs := s.memberRefs ++ [⟨token, parent, name, signature⟩] })

/-- Changes the type under a token. -/
def updateType (token : Token) (change : TypeDef → Except Error TypeDef) (s : Section) :
    Except Error Section :=
  match Rows.updateFirst (·.token == token) change s.types with
  | none => .error (.typeNotFound token)
  | some types => do return { s with types := ← types }

/-- Changes a method of the type under a token. -/
def updateMethod (owner method : Token) (change : MethodDef → MethodDef) (s : Section) :
    Except Error Section :=
  s.updateType owner (·.updateMethod method change)

/-- Gives a method to a type, under a new token. -/
def addMethod (owner : Token) (m : MethodDef) (s : Section) : Except Error (Token × Section) := do
  let token := s.nextMethodToken
  return (token, ← s.updateType owner (·.pushMethod { m with token }))

/-! ## Full names -/

/-- Stands between the full name of an enclosing type and the name of a nested one. -/
def nestedSeparator : Char := '/'

/-- Goes inwards from a type along the names of nested types. -/
def descend (s : Section) (outer : TypeDef) : List String → Option TypeDef
  | [] => some outer
  | name :: names => do
    let inner ← s.types.find? fun t => t.enclosing? == some outer.token && t.name == name
    s.descend inner names

/-- The type of a full name; at each step the first type in stored order counts. -/
def findType (s : Section) (fullName : String) : Option TypeDef :=
  match Split.texts nestedSeparator fullName with
  | [] => none
  | name :: names => do
    let outer ← s.types.find? fun t => t.enclosing?.isNone && t.qualifiedName == name
    s.descend outer names

/-- The full name of a defined or referenced type, going outwards at most `depth` times. -/
def typeNameWithin (s : Section) : (depth : Nat) → Token → Option String
  | 0, _ => none
  | depth + 1, token =>
    if token.table = Token.typeDefTable then do
      let type ← s.typeDef? token
      match type.enclosing? with
      | none => return type.qualifiedName
      | some enclosing =>
        return (← s.typeNameWithin depth enclosing).push nestedSeparator ++ type.name
    else if token.table = Token.typeRefTable then
      (s.typeRef? token).map (·.qualifiedName)
    else none

/-- The full name of a defined or referenced type.  A chain of enclosing types that ends passes
through each type of the section at most once.  A chain that runs in a circle has no end; going along
it would never come to a name, and `none` stands for that too. -/
def typeName (s : Section) (token : Token) : Option String :=
  s.typeNameWithin (s.types.length + 1) token

/-! ## Symbols -/

/-- The tokens and names of all methods. -/
def liveMethods (s : Section) : List (Token × String) :=
  s.methods.map fun m => (m.token, m.name)

/-- The methods whose symbols are recorded under another name than they have. -/
def symbolRenamings (s : Section) : List (Token × String) :=
  match s.symbols with
  | none => []
  | some table => table.renamings s.liveMethods

/-- Brings the symbols in line with the methods; there may be no symbols at all. -/
def refreshSymbols (s : Section) : Option SymbolRefresh × Section :=
  match s.symbols with
  | none => (none, s)
  | some table =>
    let (table, changes) := table.refresh s.liveMethods
    (some changes, { s with symbols := some table })

/-- Hides the code of a method in the symbols, if there are any. -/
def hideSymbols (method : Token) (s : Section) : Section :=
  { s with symbols := s.symbols.map (·.hideMethod method) }

/-- The section without its symbols. -/
def withoutSymbols (s : Section) : Section :=
  { s with symbols := none }

@[simp] theorem withoutSymbols_withoutSymbols (s : Section) :
    s.withoutSymbols.withoutSymbols = s.withoutSymbols := rfl

end Section
end DualInit
