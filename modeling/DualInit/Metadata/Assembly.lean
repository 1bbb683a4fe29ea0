import DualInit.Metadata.Section

/-!
# Assemblies

An assembly is a list of sections, of which the first one speaks for the whole.
-/

namespace DualInit

/-- An assembly. -/
structure Assembly where
  /-- The name of the assembly. -/
  name : String
  /-- The modules it consists of. -/
  sections : List Section
deriving DecidableEq, Repr, Inhabited

namespace Assembly

/-- The section that speaks for the assembly. -/
def manifest? (a : Assembly) : Option Section :=
  a.sections.head?

/-- Whether some section has symbols. -/
def hasSymbols (a : Assembly) : Bool :=
  a.sections.any (·.symbols.isSome)

/-- The symbols of each section. -/
def symbolTables (a : Assembly) : List (Option SymbolTable) :=
  a.sections.map (·.symbols)

/-- The assembly without symbols. -/
def withoutSymbols (a : Assembly) : Assembly :=
  { a with sections := a.sections.map (·.withoutSymbols) }

@[simp] theorem withoutSymbols_withoutSymbols (a : Assembly) :
    a.withoutSymbols.withoutSymbols = a.withoutSymbols := by
  simp [withoutSymbols]

/-- The first type of a full name, in the order of the sections. -/
def findType (a : Assembly) (fullName : String) : Option TypeDef :=
  a.sections.findSome? (·.findType fullName)

end Assembly
end DualInit
