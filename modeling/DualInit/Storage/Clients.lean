import DualInit.Storage.Lease
import DualInit.Storage.Store

/-!
# Clients of a store

Several clients share a store and reach it through leases only.  Their steps come in any order:
a client opens an assembly, changes the copy it holds, writes it or its symbols, and gives it
back.  A `Floor` is the store with all leases that are held, each under a number of its own, so
that a history of steps says of each step whose it is.

A step that is refused, or that is about a lease that nobody holds, changes nothing but what the
request itself has changed.
-/

namespace DualInit

/-- A store and the leases that its clients hold. -/
structure Floor where
  /-- The store. -/
  store : Store
  /-- The leases, each under the number of its holder. -/
  leases : List (Nat × Lease)
deriving DecidableEq, Repr, Inhabited

/-- A step of a client. -/
inductive ClientStep where
  /-- A client that holds no lease opens an assembly. -/
  | acquire (client : Nat) (path : Path) (options : ReadOptions)
  /-- A client changes the copy it holds. -/
  | edit (client : Nat) (change : Assembly → Assembly)
  /-- A client writes its copy. -/
  | writeAssembly (client : Nat)
  /-- A client writes the symbols of its copy. -/
  | writeSymbols (client : Nat) (format : SymbolFormat)
  /-- A client gives its assembly back. -/
  | drop (client : Nat)

namespace ClientStep

/-- The client whose step it is. -/
def client : ClientStep → Nat
  | acquire client _ _ => client
  | edit client _ => client
  | writeAssembly client => client
  | writeSymbols client _ => client
  | drop client => client

/-- The client asks the store to replace what it has open. -/
def IsWriteOf (holder : Nat) : ClientStep → Prop
  | writeAssembly client => client = holder
  | writeSymbols client _ => client = holder
  | _ => False

/-- The changes that a step makes to the copy that a client holds. -/
def changesOf (holder : Nat) : ClientStep → List (Assembly → Assembly)
  | edit client change => if client = holder then [change] else []
  | _ => []

end ClientStep

namespace Floor

/-- The lease that a client holds. -/
def lease? (f : Floor) (client : Nat) : Option Lease :=
  f.leases.lookup client

/-- The place of the assembly that a client has open. -/
def place? (f : Floor) (client : Nat) : Option Location :=
  (f.lease? client).map (·.path.location)

/-- What there is to see for the holder of a lease: the lease, and the image that is stored at its
path. -/
def view? (f : Floor) (client : Nat) : Option (Lease × Image) := do
  let lease ← f.lease? client
  let i ← f.store.image? lease.path
  return (lease, i)

/-- The leases without the one of a client. -/
def without (f : Floor) (client : Nat) : List (Nat × Lease) :=
  f.leases.filter (·.1 != client)

/-- What the request of a lease's holder leaves of the store. -/
def requested (f : Floor) (lease : Lease) (m : Edit (Session Store) Unit) : Floor :=
  { f with store := (m.run ⟨f.store, lease⟩).state.storage }

/-- The floor after a step. -/
def after (f : Floor) : ClientStep → Floor
  | .acquire client path options =>
    if (f.lease? client).isSome then f
    else
      let opened := (Lease.acquire path options : Edit Store Lease).run f.store
      match opened.result with
      | .ok lease => ⟨opened.state, (client, lease) :: f.leases⟩
      | .error _ => { f with store := opened.state }
  | .edit client change =>
    match f.lease? client with
    | none => f
    | some lease =>
      let changed := { lease with assembly := change lease.assembly }
      { f with leases := (client, changed) :: f.without client }
  | .writeAssembly client =>
    match f.lease? client with
    | none => f
    | some lease => f.requested lease Session.writeAssembly
  | .writeSymbols client format =>
    match f.lease? client with
    | none => f
    | some lease => f.requested lease (Session.writeSymbols format)
  | .drop client =>
    match f.lease? client with
    | none => f
    | some lease =>
      ⟨((lease.release : Edit Store Unit).run f.store).state, f.without client⟩

/-- The floor after a history of steps. -/
def afterAll (f : Floor) (history : List ClientStep) : Floor :=
  history.foldl after f

end Floor
end DualInit
