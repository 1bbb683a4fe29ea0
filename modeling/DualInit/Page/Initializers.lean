import DualInit.Edit
import DualInit.Metadata.Section

/-!
# The two initializers of a page

A page's class has an initializer without parameters.  The pass keeps it under another name, as
the initializer that interprets the page at run time, and puts an empty method in its place that
takes the precompiled one; both have the same attributes and the same result.

`locate` finds the two, and splits the one the page came with if that has not happened yet.  A class that
was split before is left as it is, which is what makes a second run change nothing.
-/

namespace DualInit

/-- The name of the precompiled initializer, and of the only one before it is split. -/
def precompiledName : String := "InitializeComponent"

/-- The name that the initializer a page came with is moved to. -/
def runtimeName : String := "__InitComponentRuntime"

/-- The initializers of a class. -/
structure Initializers where
  /-- The one for precompiled pages. -/
  precompiled : Token
  /-- The one that interprets the page. -/
  runtime : Token
  /-- The two were split just now. -/
  placeholderCreated : Bool
deriving DecidableEq, Repr, Inhabited

/-- Whether a method is an initializer of a name. -/
def MethodDef.isInitializer (name : String) (m : MethodDef) : Bool :=
  m.name == name && m.isParameterless

/-- The first initializer of a name. -/
def TypeDef.initializer? (name : String) (t : TypeDef) : Option MethodDef :=
  t.methods.find? (·.isInitializer name)

/-- The empty method that takes the place of an initializer. -/
def MethodDef.placeholder (m : MethodDef) : MethodDef where
  token := .null
  name := precompiledName
  flags := m.flags
  implFlags := m.implFlags
  signature := { m.signature with params := [] }
  params := []
  body := some ⟨.emptyBody, false⟩

/-- Moves an initializer of a type to its new name and puts an empty one in its place. -/
def splitInitializer (t : TypeDef) (whole : MethodDef) : Edit Section Initializers := do
  let moved := (t.method? whole.token).getD whole
  Edit.tell (.renamingMethod t.name precompiledName runtimeName)
  Edit.attemptChange
    (·.updateMethod t.token whole.token fun m => { m with name := runtimeName })
  let token ← Edit.attempt (·.addMethod t.token moved.placeholder)
  Edit.tell (.recreated precompiledName token)
  return ⟨token, whole.token, true⟩

/-- Finds the initializers of a type; a type without a precompiled one has none. -/
def locate (type : Token) : Edit Section (Option Initializers) := do
  let s ← Edit.current
  match s.typeDef? type with
  | none => Edit.fail (.typeNotFound type)
  | some t =>
    match t.initializer? precompiledName with
    | none =>
      Edit.tell (.missingMethod precompiledName t.name)
      return none
    | some whole =>
      match t.initializer? runtimeName with
      | some runtime => return some ⟨whole.token, runtime.token, false⟩
      | none => some <$> splitInitializer t whole

end DualInit
