import DualInit.Config
import DualInit.Edit
import DualInit.Metadata.Assembly

/-!
# What storage can be asked for

Whoever works with stored assemblies asks a `Codec`: it opens an assembly for one holder at a
time, finds the types that its references lead to, and takes back the assembly and its symbols.
Looking up a type changes nothing, so what a holder may look up is handed on as a `Resolver`,
without the storage.
-/

namespace DualInit

/-- The types that an opened assembly's references lead to. -/
structure Resolver where
  /-- The type of a full name in an assembly, `none` if the assembly does not define it. -/
  resolve : (scope fullName : String) → Except Error (Option TypeDef) × List Event

/-- Storage of assemblies. -/
class Codec (σ : Type) where
  /-- Opens an assembly and locks it. -/
  openAssembly : Path → ReadOptions → Edit σ Assembly
  /-- Gives up the lock of an assembly. -/
  release : Path → Edit σ Unit
  /-- The type of a full name in an assembly that the one at `origin` refers to. -/
  resolveType : σ → (origin : Path) → (scope fullName : String) → (directories : List Path) →
    Except Error (Option TypeDef) × List Event
  /-- Encodes all bodies and puts an assembly in the place of the stored one. -/
  writeAssembly : Path → Assembly → Edit σ Unit
  /-- Puts the symbols of an assembly in the place of the stored ones. -/
  writeSymbols : Path → Assembly → SymbolFormat → Edit σ Unit

/-- The types that the references of the assembly at `origin` lead to. -/
def Codec.resolver {σ : Type} [Codec σ] (storage : σ) (origin : Path) (directories : List Path) :
    Resolver :=
  ⟨fun scope fullName => Codec.resolveType storage origin scope fullName directories⟩

end DualInit
