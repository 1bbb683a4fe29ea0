import DualInit.Storage.Codec

/-!
# Leases

A lease is an opened assembly together with the right to write it back.  It is acquired by
opening the assembly and released when its holder is done, whichever way that ends:
`Lease.holding` releases after a failure as well, and a release that fails is told and changes
nothing about the answer.

While a lease is held, storage and lease make up a `Session`.  Changes of the leased assembly
reach the storage only by writing.
-/

namespace DualInit

/-- An opened assembly. -/
structure Lease where
  path : Path
  /-- Where assemblies that it refers to are looked for. -/
  searchDirectories : List Path
  /-- The assembly as its holder has changed it. -/
  assembly : Assembly
deriving DecidableEq, Repr, Inhabited

/-- What the holder of a lease works on. -/
structure Session (σ : Type) where
  storage : σ
  lease : Lease

variable {σ α : Type} [Codec σ]

namespace Lease

/-- Opens an assembly. -/
def acquire (path : Path) (options : ReadOptions) : Edit σ Lease := do
  let a ← Codec.openAssembly path options
  Edit.tell (.opened path a.sections.length)
  return ⟨path, options.searchDirectories, a⟩

/-- Gives an opened assembly back. -/
def release (lease : Lease) : Edit σ Unit := do
  match ← Edit.catching (Codec.release lease.path) with
  | .ok () => Edit.tell (.released lease.path)
  | .error e => Edit.tell (.releaseFailed lease.path e)

/-- Works on an assembly while it is open. -/
def holding (path : Path) (options : ReadOptions) (work : Edit (Session σ) α) : Edit σ α := do
  let lease ← acquire path options
  let result ← Edit.catching (Edit.focus (⟨·, lease⟩) (fun session _ => session.storage) work)
  lease.release
  Edit.ofExcept result

end Lease

namespace Session

/-- The types that the leased assembly's references lead to. -/
def resolver (s : Session σ) : Resolver :=
  Codec.resolver s.storage s.lease.path s.lease.searchDirectories

/-- Works on the leased assembly alone. -/
def editAssembly (work : Edit Assembly α) : Edit (Session σ) α :=
  Edit.focus (·.lease.assembly)
    (fun assembly s => { s with lease := { s.lease with assembly } }) work

/-- Works on storage alone. -/
def editStorage (work : Edit σ α) : Edit (Session σ) α :=
  Edit.focus storage (fun storage s => { s with storage }) work

/-- Writes the leased assembly. -/
def writeAssembly : Edit (Session σ) Unit := do
  let s ← Edit.current
  editStorage (Codec.writeAssembly s.lease.path s.lease.assembly)

/-- Writes the symbols of the leased assembly. -/
def writeSymbols (format : SymbolFormat) : Edit (Session σ) Unit := do
  let s ← Edit.current
  editStorage (Codec.writeSymbols s.lease.path s.lease.assembly format)

end Session
end DualInit
