import DualInit.Proofs.Endings
import DualInit.Storage.Lease
import DualInit.Storage.Store

/-!
# Requests to a store

What the requests of a lease's holder do to a store, request by request: opening locks and
changes nothing else, a write that succeeds puts one image in the place of another, and a request
that fails leaves the store as it was.  `ends_holding_ok` and `ends_holding_error` put this
together for the whole time that a lease is held: whichever way the work ends, the lock is given
up on what the work has left.
-/

namespace DualInit
namespace Store

/-! ## Images and locks -/

theorem image?_putImage_self {path : Path} {i : Image} {s : Store} :
    (s.putImage path i).image? path = some i := by
  rw [image?_putImage, if_pos rfl]

/-- Of two images put at one path only the second one counts. -/
theorem putImage_putImage (path : Path) (i j : Image) (s : Store) :
    (s.putImage path i).putImage path j = s.putImage path j := by
  simp [putImage, List.filter_filter]

/-- Work between taking a lock and giving it up can be done before. -/
theorem unlock_putImage_lock {path : Path} {s : Store} (i : Image)
    (h : s.isLocked path = false) :
    ((s.lock path).putImage path i).unlock path = s.putImage path i :=
  unlock_lock (s := s.putImage path i) h

theorem firstStored_congr {s t : Store} (h : ∀ path, s.image? path = t.image? path)
    (paths : List Path) : s.firstStored paths = t.firstStored paths := by
  induction paths with
  | nil => rfl
  | cons path paths ih => simp only [firstStored, h, ih]

theorem firstStored_eq_none {s : Store} {paths : List Path} :
    s.firstStored paths = none ↔ ∀ path ∈ paths, s.image? path = none := by
  induction paths with
  | nil => simp [firstStored]
  | cons path paths ih =>
    rw [firstStored, List.forall_mem_cons, ← ih]
    cases s.image? path <;> simp

/-- A reference is refused exactly if none of the files that it may mean is stored. -/
theorem resolveType_error {s : Store} {origin : Path} {scope fullName : String}
    {directories : List Path} {e : Error} :
    (s.resolveType origin scope fullName directories).1 = .error e ↔
      e = .referenceNotFound scope ∧
        ∀ path ∈ candidates origin scope directories, s.image? path = none := by
  rw [← firstStored_eq_none]
  unfold resolveType
  cases s.firstStored (candidates origin scope directories) with
  | none => simp [eq_comm]
  | some found => simp

/-- What an assembly refers to is found whatever is locked. -/
theorem resolver_lock (path origin : Path) (directories : List Path) (s : Store) :
    Codec.resolver (s.lock path) origin directories = Codec.resolver s origin directories := by
  have h := firstStored_congr (s := s.lock path) (t := s) fun _ => rfl
  simp only [Codec.resolver, Codec.resolveType, resolveType, h]

/-! ## Opening -/

/-- An assembly that can be opened is stored and is not open. -/
theorem image?_of_read_ok {s : Store} {path : Path} {options : ReadOptions} {a : Assembly}
    (h : (s.read path options).1 = .ok a) :
    ∃ i, s.image? path = some i ∧ s.isLocked path = false := by
  unfold read at h
  cases hi : s.image? path with
  | none => simp [hi] at h
  | some i =>
    cases hlocked : s.isLocked path with
    | true => simp [hi, hlocked] at h
    | false => exact ⟨i, rfl, rfl⟩

theorem ends_openAssembly {path : Path} {options : ReadOptions} {s t : Store}
    {r : Except Error Assembly} :
    (Codec.openAssembly path options : Edit Store Assembly).Ends s r t ↔
      r = (s.read path options).1 ∧ t = match r with
        | .ok _ => s.lock path
        | .error _ => s := by
  simp only [Edit.Ends, Edit.run, Codec.openAssembly]
  rcases s.read path options with ⟨_ | a, told⟩
  · constructor
    · rintro ⟨rfl, rfl⟩
      exact ⟨rfl, rfl⟩
    · rintro ⟨rfl, rfl⟩
      exact ⟨rfl, rfl⟩
  · constructor
    · rintro ⟨rfl, rfl⟩
      exact ⟨rfl, rfl⟩
    · rintro ⟨rfl, rfl⟩
      exact ⟨rfl, rfl⟩

theorem ends_acquire_ok {path : Path} {options : ReadOptions} {s t : Store} {lease : Lease} :
    (Lease.acquire path options : Edit Store Lease).Ends s (.ok lease) t ↔
      ∃ a, (s.read path options).1 = .ok a ∧
        lease = ⟨path, options.searchDirectories, a⟩ ∧ t = s.lock path := by
  simp only [Lease.acquire, Edit.ends_bind_ok, ends_openAssembly, Edit.ends_tell, Edit.ends_pure]
  constructor
  · rintro ⟨a, u, ⟨ha, rfl⟩, -, -, ⟨-, rfl⟩, hlease, rfl⟩
    exact ⟨a, ha.symm, Except.ok.inj hlease, rfl⟩
  · rintro ⟨a, ha, rfl, rfl⟩
    exact ⟨a, _, ⟨ha.symm, rfl⟩, (), _, ⟨trivial, rfl⟩, rfl, rfl⟩

theorem ends_acquire_error {path : Path} {options : ReadOptions} {s t : Store} {e : Error} :
    (Lease.acquire path options : Edit Store Lease).Ends s (.error e) t ↔
      (s.read path options).1 = .error e ∧ t = s := by
  simp only [Lease.acquire, Edit.ends_bind_error, ends_openAssembly, Edit.ends_tell,
    Edit.ends_pure]
  constructor
  · rintro (⟨he, rfl⟩ | ⟨a, u, -, ⟨h, -⟩ | ⟨-, -, -, h, -⟩⟩)
    · exact ⟨he.symm, rfl⟩
    · exact absurd h (by simp)
    · exact absurd h (by simp)
  · rintro ⟨he, rfl⟩
    exact Or.inl ⟨he.symm, rfl⟩

/-! ## Holding a lease -/

theorem ends_release {lease : Lease} {s t : Store} {r : Except Error Unit} :
    (lease.release : Edit Store Unit).Ends s r t ↔ r = .ok () ∧ t = s.unlock lease.path := by
  have h : (lease.release : Edit Store Unit).Ends s (.ok ()) (s.unlock lease.path) :=
    Edit.ends_bind_ok.mpr ⟨.ok (), _, Edit.ends_catching.mpr
      ⟨.ok (), Edit.ends_change.mpr ⟨rfl, rfl⟩, rfl⟩, Edit.ends_tell.mpr ⟨rfl, rfl⟩⟩
  constructor
  · intro h'
    exact h'.unique h
  · rintro ⟨rfl, rfl⟩
    exact h

variable {α : Type} {path : Path} {options : ReadOptions} {work : Edit (Session Store) α}
  {s t : Store} {e : Error}

/-- Work on an open assembly succeeds if the assembly can be opened and the work succeeds; the
lock is given up on what the work has left. -/
theorem ends_holding_ok {answer : α} :
    (Lease.holding path options work).Ends s (.ok answer) t ↔
      ∃ a v, (s.read path options).1 = .ok a ∧
        work.Ends ⟨s.lock path, path, options.searchDirectories, a⟩ (.ok answer) v ∧
        t = v.storage.unlock path := by
  simp only [Lease.holding, Edit.ends_bind_ok, ends_acquire_ok, Edit.ends_catching,
    Edit.ends_focus, ends_release, Edit.ends_ofExcept]
  constructor
  · rintro ⟨lease, u, ⟨a, ha, rfl, rfl⟩, x, w, ⟨y, ⟨v, hwork, rfl⟩, hx⟩, -, -, ⟨-, rfl⟩, hy, rfl⟩
    rw [← Except.ok.inj hx, ← hy] at hwork
    exact ⟨a, v, ha, hwork, rfl⟩
  · rintro ⟨a, v, ha, hwork, rfl⟩
    exact ⟨_, _, ⟨a, ha, rfl, rfl⟩, _, _, ⟨_, ⟨v, hwork, rfl⟩, rfl⟩, (), _, ⟨trivial, rfl⟩, rfl, rfl⟩

/-- Work on an open assembly fails if the assembly cannot be opened, and nothing is locked then,
or if the work fails; the lock is given up on what the work has left. -/
theorem ends_holding_error :
    (Lease.holding path options work).Ends s (.error e) t ↔
      (s.read path options).1 = .error e ∧ t = s ∨
      ∃ a v, (s.read path options).1 = .ok a ∧
        work.Ends ⟨s.lock path, path, options.searchDirectories, a⟩ (.error e) v ∧
        t = v.storage.unlock path := by
  simp only [Lease.holding, Edit.ends_bind_error, ends_acquire_error, ends_acquire_ok,
    Edit.ends_catching, Edit.ends_focus, ends_release, Edit.ends_ofExcept]
  constructor
  · rintro (h | ⟨lease, u, ⟨a, ha, rfl, rfl⟩, ⟨x, -, hx⟩ |
      ⟨x, w, ⟨y, ⟨v, hwork, rfl⟩, hx⟩, ⟨h, -⟩ | ⟨-, -, ⟨-, rfl⟩, hy, rfl⟩⟩⟩)
    · exact Or.inl h
    · exact absurd hx (by simp)
    · exact absurd h (by simp)
    · rw [← Except.ok.inj hx, ← hy] at hwork
      exact Or.inr ⟨a, v, ha, hwork, rfl⟩
  · rintro (h | ⟨a, v, ha, hwork, rfl⟩)
    · exact Or.inl h
    · exact Or.inr ⟨_, _, ⟨a, ha, rfl, rfl⟩, Or.inr ⟨_, _, ⟨_, ⟨v, hwork, rfl⟩, rfl⟩,
        Or.inr ⟨(), _, ⟨trivial, rfl⟩, rfl, rfl⟩⟩⟩

/-! ## Writing -/

/-- An assembly is written exactly if all its bodies can be encoded and there is an image to
replace. -/
theorem writeAssembly_ok {a : Assembly} :
    s.writeAssembly path a = .ok t ↔ ∃ i bodies, s.image? path = some i ∧
      Image.encodeBodies a = .ok bodies ∧
      t = s.putImage path (i.withAssembly a bodies) := by
  unfold writeAssembly
  cases hbodies : Image.encodeBodies a with
  | error e => simp [bind, Except.bind]
  | ok bodies =>
    cases hi : s.image? path with
    | none => simp [bind, Except.bind, throw, throwThe, MonadExceptOf.throw]
    | some i => simp [bind, Except.bind, pure, Except.pure, eq_comm]

/-- Symbols are written exactly if their format can be and there is an image to replace. -/
theorem writeSymbols_ok {a : Assembly} {format : SymbolFormat} :
    s.writeSymbols path a format = .ok t ↔ ∃ i, s.image? path = some i ∧
      format ∈ s.symbolFormats ∧
      t = s.putImage path { i with
        symbols := a.symbolTables.map fun table => table.map fun t => { t with format }
        symbolWrites := i.symbolWrites + 1 } := by
  unfold writeSymbols
  by_cases hformat : format ∈ s.symbolFormats
  · cases hi : s.image? path with
    | none => simp [hformat]
    | some i => simp [hformat, eq_comm]
  · simp [hformat]

/-- Symbols of a stored assembly fail to be written only for their format. -/
theorem writeSymbols_error {a : Assembly} {format : SymbolFormat} {i : Image}
    (hi : s.image? path = some i) :
    s.writeSymbols path a format = .error e ↔
      format ∉ s.symbolFormats ∧ e = .symbolFormatUnsupported format := by
  unfold writeSymbols
  by_cases hformat : format ∈ s.symbolFormats
  · simp [hformat, hi]
  · simp [hformat, eq_comm]

end Store

namespace Session

variable {α : Type} {s t : Session Store} {e : Error}

theorem ends_editAssembly {work : Edit Assembly α} {r : Except Error α} :
    (editAssembly work).Ends s r t ↔
      ∃ a, work.Ends s.lease.assembly r a ∧ t = ⟨s.storage, { s.lease with assembly := a }⟩ :=
  Edit.ends_focus

/-- A request of the holder is answered by the store alone. -/
theorem ends_request_ok (request : Lease → Store → Except Error Store) {u : Unit} :
    (do let s ← Edit.current
        editStorage (Edit.attemptChange (request s.lease)) : Edit (Session Store) Unit).Ends
        s (.ok u) t ↔
      ∃ next, request s.lease s.storage = .ok next ∧ t = ⟨next, s.lease⟩ := by
  simp only [editStorage, Edit.ends_bind_ok, Edit.ends_current, Edit.ends_focus,
    Edit.ends_attemptChange_ok]
  constructor
  · rintro ⟨_, _, ⟨h, rfl⟩, next, hnext, rfl⟩
    obtain rfl := Except.ok.inj h
    exact ⟨next, hnext, rfl⟩
  · rintro ⟨next, hnext, rfl⟩
    exact ⟨_, _, ⟨rfl, rfl⟩, next, hnext, rfl⟩

/-- A request that fails has changed nothing. -/
theorem ends_request_error (request : Lease → Store → Except Error Store) :
    (do let s ← Edit.current
        editStorage (Edit.attemptChange (request s.lease)) : Edit (Session Store) Unit).Ends
        s (.error e) t ↔
      request s.lease s.storage = .error e ∧ t = s := by
  simp only [editStorage, Edit.ends_bind_error, Edit.ends_current, Edit.ends_focus,
    Edit.ends_attemptChange_error]
  constructor
  · rintro (⟨h, -⟩ | ⟨_, _, ⟨h, rfl⟩, _, ⟨he, rfl⟩, rfl⟩)
    · exact absurd h (by simp)
    · obtain rfl := Except.ok.inj h
      exact ⟨he, rfl⟩
  · rintro ⟨he, rfl⟩
    exact Or.inr ⟨_, _, ⟨rfl, rfl⟩, _, ⟨he, rfl⟩, rfl⟩

theorem ends_writeAssembly_ok {u : Unit} :
    (writeAssembly : Edit (Session Store) Unit).Ends s (.ok u) t ↔
      ∃ next, s.storage.writeAssembly s.lease.path s.lease.assembly = .ok next ∧
        t = ⟨next, s.lease⟩ :=
  ends_request_ok fun lease => (·.writeAssembly lease.path lease.assembly)

theorem ends_writeAssembly_error :
    (writeAssembly : Edit (Session Store) Unit).Ends s (.error e) t ↔
      s.storage.writeAssembly s.lease.path s.lease.assembly = .error e ∧ t = s :=
  ends_request_error fun lease => (·.writeAssembly lease.path lease.assembly)

theorem ends_writeSymbols_ok {format : SymbolFormat} {u : Unit} :
    (writeSymbols format : Edit (Session Store) Unit).Ends s (.ok u) t ↔
      ∃ next, s.storage.writeSymbols s.lease.path s.lease.assembly format = .ok next ∧
        t = ⟨next, s.lease⟩ :=
  ends_request_ok fun lease => (·.writeSymbols lease.path lease.assembly format)

theorem ends_writeSymbols_error {format : SymbolFormat} :
    (writeSymbols format : Edit (Session Store) Unit).Ends s (.error e) t ↔
      s.storage.writeSymbols s.lease.path s.lease.assembly format = .error e ∧ t = s :=
  ends_request_error fun lease => (·.writeSymbols lease.path lease.assembly format)

end Session
end DualInit
