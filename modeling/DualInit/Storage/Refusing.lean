import DualInit.Storage.Store

/-!
# Stores that cannot be reached

A store behind a lock that cannot be taken for some requests: these fail before the store is
asked, all others go through to it.
-/

namespace DualInit

/-- The requests that storage answers. -/
inductive Request where
  | openAssembly
  | release
  | resolveType
  | writeAssembly
  | writeSymbols
deriving DecidableEq, Repr, Inhabited

/-- A store that cannot be reached for some requests. -/
structure RefusingStore where
  /-- The store. -/
  store : Store
  /-- The requests for which it cannot be reached. -/
  refused : List Request
deriving DecidableEq, Repr, Inhabited

namespace RefusingStore

/-- An edit of the store, unless the store cannot be reached. -/
def unlessRefused {α : Type} (request : Request) (m : Edit Store α) : Edit RefusingStore α :=
  fun s =>
    if request ∈ s.refused then ⟨.error .lockFailed, s, []⟩
    else (Edit.focus store (fun inner s => { s with store := inner }) m) s

instance : Codec RefusingStore where
  openAssembly path options := unlessRefused .openAssembly (Codec.openAssembly path options)
  release path := unlessRefused .release (Codec.release path)
  resolveType s origin scope fullName directories :=
    if .resolveType ∈ s.refused then (.error .lockFailed, [])
    else s.store.resolveType origin scope fullName directories
  writeAssembly path a := unlessRefused .writeAssembly (Codec.writeAssembly path a)
  writeSymbols path a format := unlessRefused .writeSymbols (Codec.writeSymbols path a format)

end RefusingStore
end DualInit
