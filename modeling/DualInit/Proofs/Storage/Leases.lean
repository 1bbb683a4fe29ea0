import DualInit.Proofs.Storage.Symbols
import DualInit.Storage.Clients

/-!
# Leases are exclusive and lose no update

The clients of a store take their steps in any order, and any step may be refused.  That nobody
overwrites what somebody else has written rests on one invariant: the locked places are exactly
the places of the leases, and no place has two leases (`Floor.Exclusive`).  A request that is
refused keeps it because it changes nothing; in particular an assembly that cannot be opened is
not locked, and what was locked before stays locked.

* `Floor.moves_after`: all that a step can do, case by case.
* `Floor.Moves.exclusive` and `Floor.exclusive_afterAll`: one step keeps the invariant, and so
  does a history.
* `Floor.view?_after_own` and `Floor.view?_afterAll`: what the holder of a lease sees, its copy and
  the stored image, is what its own steps make of it, whatever others do in between.
* `upToDate_alone`: what is stored is the opened assembly with the changes that were
  committed, and the copy is what is stored with the changes that were not.
-/

namespace DualInit

namespace Floor

/-! ## What a step does -/

/-- What a step can do to a floor. -/
inductive Moves (f : Floor) : ClientStep → Floor → Prop where
  /-- A request is refused, or nobody holds the lease that the step is about. -/
  | unmoved (step : ClientStep) : Moves f step f
  /-- An assembly that is stored and not open is opened and locked. -/
  | acquired {client : Nat} {path : Path} {options : ReadOptions} (a : Assembly) {i : Image}
      (hlease : f.lease? client = none) (hi : f.store.image? path = some i)
      (hlocked : f.store.isLocked path = false) :
      Moves f (.acquire client path options)
        ⟨f.store.lock path, (client, ⟨path, options.searchDirectories, a⟩) :: f.leases⟩
  /-- A copy is changed. -/
  | edited {client : Nat} {lease : Lease} (change : Assembly → Assembly)
      (hlease : f.lease? client = some lease) :
      Moves f (.edit client change)
        ⟨f.store, (client, { lease with assembly := change lease.assembly }) :: f.without client⟩
  /-- The image at the path of a lease is replaced by its holder. -/
  | wrote {step : ClientStep} {client : Nat} {lease : Lease} (i : Image)
      (hstep : step.IsWriteOf client) (hlease : f.lease? client = some lease) :
      Moves f step { f with store := f.store.putImage lease.path i }
  /-- A lock is given up together with its lease. -/
  | dropped {client : Nat} {lease : Lease} (hlease : f.lease? client = some lease) :
      Moves f (.drop client) ⟨f.store.unlock lease.path, f.without client⟩

variable {f g : Floor} {step : ClientStep} {client other : Nat} {lease : Lease} {path : Path}
  {options : ReadOptions} {place : Location} {a : Assembly} {i : Image}

/-! ## Leases by client -/

theorem lookup_without :
    (f.without client).lookup other = if other = client then none else f.lease? other :=
  lookup_filter_bne client other f.leases

theorem lease?_cons {s : Store} {leases : List (Nat × Lease)} :
    (⟨s, (client, lease) :: leases⟩ : Floor).lease? other =
      if other = client then some lease else leases.lookup other := by
  rw [lease?, List.lookup_cons]
  split
  · next heq => rw [if_pos (beq_iff_eq.mp heq)]
  · next hne => rw [if_neg (beq_eq_false_iff_ne.mp hne)]

/-! ## The steps one by one -/

/-- A request that is granted leaves its store. -/
theorem requested_of_ends {m : Edit (Session Store) Unit} {r : Except Error Unit} {t : Store}
    (h : m.Ends ⟨f.store, lease⟩ r ⟨t, lease⟩) : f.requested lease m = { f with store := t } := by
  rw [requested, h.2]

/-- A client that holds no lease can do nothing but open an assembly. -/
theorem after_of_none (hlease : f.lease? step.client = none)
    (hstep : ∀ client path options, step ≠ .acquire client path options) : f.after step = f := by
  cases step with
  | acquire client path options => exact absurd rfl (hstep client path options)
  | edit client | writeAssembly client | writeSymbols client | drop client =>
    have hnone : f.lease? client = none := hlease
    simp only [after, hnone]

/-- A client that holds a lease opens nothing else. -/
theorem after_acquire_of_held (hlease : f.lease? client = some lease) :
    f.after (.acquire client path options) = f := by
  simp only [after, hlease, Option.isSome_some, if_true]

/-- An assembly that cannot be opened leaves everything as it was. -/
theorem after_acquire_error {e : Error} (hread : (f.store.read path options).1 = .error e) :
    f.after (.acquire client path options) = f := by
  obtain ⟨hresult, hstate⟩ := Store.ends_acquire_error.mpr ⟨hread, rfl⟩
  simp only [after, hresult, hstate]
  split <;> rfl

theorem after_acquire_ok (hlease : f.lease? client = none)
    (hread : (f.store.read path options).1 = .ok a) :
    f.after (.acquire client path options) =
      ⟨f.store.lock path, (client, ⟨path, options.searchDirectories, a⟩) :: f.leases⟩ := by
  obtain ⟨hresult, hstate⟩ := Store.ends_acquire_ok.mpr ⟨a, hread, rfl, rfl⟩
  simp only [after, hlease, Option.isSome_none, hresult, hstate, Bool.false_eq_true, if_false]

theorem after_edit {change : Assembly → Assembly} (hlease : f.lease? client = some lease) :
    f.after (.edit client change) =
      ⟨f.store, (client, { lease with assembly := change lease.assembly }) ::
        f.without client⟩ := by
  simp only [after, hlease]

theorem after_drop (hlease : f.lease? client = some lease) :
    f.after (.drop client) = ⟨f.store.unlock lease.path, f.without client⟩ := by
  have hstate : ((lease.release : Edit Store Unit).run f.store).state = f.store.unlock lease.path :=
    (Store.ends_release.mpr ⟨rfl, rfl⟩).2
  simp only [after, hlease, hstate]

/-- Writing replaces the stored assembly if all bodies can be encoded and there is something to
replace. -/
theorem after_writeAssembly (hlease : f.lease? client = some lease) :
    f.after (.writeAssembly client) =
      match f.store.writeAssembly lease.path lease.assembly with
      | .ok t => { f with store := t }
      | .error _ => f := by
  simp only [after, hlease]
  cases hwrite : f.store.writeAssembly lease.path lease.assembly with
  | ok t =>
    exact requested_of_ends (Session.ends_writeAssembly_ok (u := ()) |>.mpr ⟨t, hwrite, rfl⟩)
  | error e => exact requested_of_ends (Session.ends_writeAssembly_error.mpr ⟨hwrite, rfl⟩)

/-- Writing symbols replaces the stored ones if their format can be written and there is something
to replace. -/
theorem after_writeSymbols {format : SymbolFormat} (hlease : f.lease? client = some lease) :
    f.after (.writeSymbols client format) =
      match f.store.writeSymbols lease.path lease.assembly format with
      | .ok t => { f with store := t }
      | .error _ => f := by
  simp only [after, hlease]
  cases hwrite : f.store.writeSymbols lease.path lease.assembly format with
  | ok t => exact requested_of_ends (Session.ends_writeSymbols_ok (u := ()) |>.mpr ⟨t, hwrite, rfl⟩)
  | error e => exact requested_of_ends (Session.ends_writeSymbols_error.mpr ⟨hwrite, rfl⟩)

/-- Every step does one of these things. -/
theorem moves_after (f : Floor) (step : ClientStep) : f.Moves step (f.after step) := by
  cases hheld : f.lease? step.client with
  | none =>
    cases step with
    | acquire client path options =>
      cases hread : (f.store.read path options).1 with
      | error e =>
        rw [after_acquire_error hread]
        exact .unmoved _
      | ok a =>
        have hlease : f.lease? client = none := hheld
        obtain ⟨i, hi, hlocked⟩ := Store.image?_of_read_ok hread
        rw [after_acquire_ok hlease hread]
        exact .acquired a hlease hi hlocked
    | edit | writeAssembly | writeSymbols | drop =>
      rw [after_of_none hheld nofun]
      exact .unmoved _
  | some lease =>
    cases step with
    | acquire client path options =>
      have hlease : f.lease? client = some lease := hheld
      rw [after_acquire_of_held hlease]
      exact .unmoved _
    | edit client change =>
      have hlease : f.lease? client = some lease := hheld
      rw [after_edit hlease]
      exact .edited change hlease
    | writeAssembly client =>
      have hlease : f.lease? client = some lease := hheld
      rw [after_writeAssembly hlease]
      split
      · next t hwrite =>
        obtain ⟨i, bodies, -, -, rfl⟩ := Store.writeAssembly_ok.mp hwrite
        exact .wrote _ rfl hlease
      · exact .unmoved _
    | writeSymbols client format =>
      have hlease : f.lease? client = some lease := hheld
      rw [after_writeSymbols hlease]
      split
      · next t hwrite =>
        obtain ⟨i, -, -, rfl⟩ := Store.writeSymbols_ok.mp hwrite
        exact .wrote _ rfl hlease
      · exact .unmoved _
    | drop client =>
      have hlease : f.lease? client = some lease := hheld
      rw [after_drop hlease]
      exact .dropped hlease

/-! ## Exclusive leases -/

/-- Locks and leases belong together: the locked places are the places of the leases, no place has
two leases, and what is open is stored. -/
structure Exclusive (f : Floor) : Prop where
  /-- Exactly the places of the leases are locked. -/
  locked : ∀ place, place ∈ f.store.locked ↔ ∃ client, f.place? client = some place
  /-- No two clients have one place open. -/
  apart : ∀ {client other place}, f.place? client = some place → f.place? other = some place →
    client = other
  /-- There is an image at the path of every lease. -/
  stored : ∀ {client lease}, f.lease? client = some lease → ∃ i, f.store.image? lease.path = some i

/-! ### Places -/

theorem place?_eq_some :
    f.place? client = some place ↔ ∃ lease, f.lease? client = some lease ∧
      lease.path.location = place :=
  Option.map_eq_some_iff

theorem place?_acquired {s : Store} :
    (⟨s, (client, lease) :: f.leases⟩ : Floor).place? other =
      if other = client then some lease.path.location else f.place? other := by
  rw [place?, lease?_cons]
  split <;> rfl

theorem place?_edited {s : Store} :
    (⟨s, (client, lease) :: f.without client⟩ : Floor).place? other =
      if other = client then some lease.path.location else f.place? other := by
  rw [place?, lease?_cons, lookup_without]
  split <;> rfl

theorem place?_dropped {s : Store} :
    (⟨s, f.without client⟩ : Floor).place? other =
      if other = client then none else f.place? other := by
  rw [place?, lease?, lookup_without]
  split <;> rfl

/-! ### One step -/

/-- A place that is opened was nobody's before. -/
theorem Exclusive.place?_ne (hf : f.Exclusive) (hlocked : f.store.isLocked path = false) :
    f.place? other ≠ some path.location := by
  intro hother
  have hmem := (hf.locked path.location).mpr ⟨other, hother⟩
  have hnotMem : path.location ∉ f.store.locked := by
    simpa [Store.isLocked, List.contains_eq_mem] using hlocked
  exact hnotMem hmem

theorem Exclusive.acquired (hf : f.Exclusive) (hlease : f.lease? client = none)
    (hi : f.store.image? path = some i) (hlocked : f.store.isLocked path = false) :
    Exclusive ⟨f.store.lock path, (client, ⟨path, options.searchDirectories, a⟩) :: f.leases⟩ where
  locked := by
    intro place
    have hnone : f.place? client = none := by rw [place?, hlease, Option.map_none]
    show place ∈ path.location :: f.store.locked ↔ _
    simp only [place?_acquired, List.mem_cons, hf.locked]
    constructor
    · rintro (rfl | ⟨other, hother⟩)
      · exact ⟨client, if_pos rfl⟩
      · have hother' : other ≠ client := by
          rintro rfl
          exact absurd (hnone.symm.trans hother) (by simp)
        refine ⟨other, ?_⟩
        rw [if_neg hother']
        exact hother
    · rintro ⟨other, hother⟩
      split at hother
      · exact Or.inl (Option.some.inj hother).symm
      · exact Or.inr ⟨other, hother⟩
  apart := by
    intro one other place hone hother
    rw [place?_acquired] at hone hother
    split at hone
    · next heq =>
      obtain rfl := Option.some.inj hone
      split at hother
      · next heq' => exact heq.trans heq'.symm
      · exact absurd hother (hf.place?_ne hlocked)
    · split at hother
      · obtain rfl := Option.some.inj hother
        exact absurd hone (hf.place?_ne hlocked)
      · exact hf.apart hone hother
  stored := by
    intro other lease hother
    rw [lease?_cons] at hother
    split at hother
    · obtain rfl := Option.some.inj hother
      exact ⟨i, hi⟩
    · exact hf.stored hother

/-- A changed copy stands where it stood. -/
theorem Exclusive.edited (hf : f.Exclusive) {change : Assembly → Assembly}
    (hlease : f.lease? client = some lease) :
    Exclusive ⟨f.store,
      (client, { lease with assembly := change lease.assembly }) :: f.without client⟩ := by
  have hplace : ∀ other, (⟨f.store, (client, { lease with assembly := change lease.assembly }) ::
      f.without client⟩ : Floor).place? other = f.place? other := by
    intro other
    rw [place?_edited]
    split
    · next heq => rw [heq, place?, hlease, Option.map_some]
    · rfl
  refine ⟨fun place => ?_, fun {one other place} hone hother => ?_, fun {other} held hother => ?_⟩
  · simp only [hplace]
    exact hf.locked place
  · rw [hplace] at hone hother
    exact hf.apart hone hother
  · rw [lease?_cons, lookup_without] at hother
    split at hother
    · obtain rfl := Option.some.inj hother
      have hstored := hf.stored hlease
      exact hstored
    · exact hf.stored hother

/-- Replacing an image touches neither locks nor leases. -/
theorem Exclusive.wrote (hf : f.Exclusive) :
    Exclusive { f with store := f.store.putImage path i } := by
  refine ⟨hf.locked, hf.apart, fun {other} held hother => ?_⟩
  rw [Store.image?_putImage]
  split
  · exact ⟨i, rfl⟩
  · exact hf.stored hother

theorem Exclusive.dropped (hf : f.Exclusive) (hlease : f.lease? client = some lease) :
    Exclusive ⟨f.store.unlock lease.path, f.without client⟩ where
  locked := by
    intro place
    have hclient : f.place? client = some lease.path.location := by
      rw [place?, hlease, Option.map_some]
    show place ∈ f.store.locked.filter (· != lease.path.location) ↔ _
    simp only [place?_dropped, List.mem_filter, hf.locked, bne_iff_ne]
    constructor
    · rintro ⟨⟨other, hother⟩, hne⟩
      have hother' : other ≠ client := by
        rintro rfl
        exact hne (Option.some.inj (hother.symm.trans hclient))
      refine ⟨other, ?_⟩
      rw [if_neg hother']
      exact hother
    · rintro ⟨other, hother⟩
      split at hother
      · exact absurd hother (by simp)
      · next hne =>
        refine ⟨⟨other, hother⟩, ?_⟩
        rintro rfl
        exact hne (hf.apart hother hclient)
  apart := by
    intro one other place hone hother
    rw [place?_dropped] at hone hother
    split at hone
    · exact absurd hone (by simp)
    · split at hother
      · exact absurd hother (by simp)
      · exact hf.apart hone hother
  stored := by
    intro other held hother
    rw [lease?, lookup_without] at hother
    split at hother
    · exact absurd hother (by simp)
    · exact hf.stored hother

/-- No step breaks the invariant. -/
theorem Moves.exclusive (h : f.Moves step g) (hf : f.Exclusive) : g.Exclusive := by
  cases h with
  | unmoved => exact hf
  | acquired a hlease hi hlocked => exact hf.acquired hlease hi hlocked
  | edited change hlease => exact hf.edited hlease
  | wrote i hstep hlease => exact hf.wrote
  | dropped hlease => exact hf.dropped hlease

/-! ### Histories -/

/-- Where nothing is locked and nobody holds a lease, nothing is amiss. -/
theorem exclusive_of_locked_eq_nil {s : Store} (h : s.locked = []) : Exclusive ⟨s, []⟩ := by
  refine ⟨fun place => ?_, fun {one other place} hone _ => ?_, fun {other} held hother => ?_⟩
  · simp [h, place?, lease?]
  · exact absurd hone (by simp [place?, lease?])
  · exact absurd hother (by simp [lease?])

theorem exclusive_afterAll (hf : f.Exclusive) (history : List ClientStep) :
    (f.afterAll history).Exclusive := by
  induction history generalizing f with
  | nil => exact hf
  | cons step history ih => exact ih ((f.moves_after step).exclusive hf)

/-! ## What a holder sees -/

/-- An image is replaced only by a client that holds a lease of it. -/
theorem Moves.write_of_image?_ne (h : f.Moves step g)
    (hne : g.store.image? path ≠ f.store.image? path) :
    ∃ client lease, step.IsWriteOf client ∧ f.lease? client = some lease ∧
      lease.path.location = path.location := by
  cases h with
  | unmoved => exact absurd rfl hne
  | acquired a hlease hi hlocked => exact absurd rfl hne
  | edited change hlease => exact absurd rfl hne
  | dropped hlease => exact absurd rfl hne
  | @wrote _ _ lease i hstep hlease =>
    rw [Store.image?_putImage] at hne
    by_cases hpath : path.location = lease.path.location
    · exact ⟨_, lease, hstep, hlease, hpath.symm⟩
    · exact absurd (if_neg hpath) hne

end Floor

theorem ClientStep.IsWriteOf.client_eq {step : ClientStep} {client : Nat}
    (h : step.IsWriteOf client) : step.client = client := by
  cases step with
  | writeAssembly | writeSymbols => exact h
  | acquire | edit | drop => exact h.elim

namespace Floor

variable {f g : Floor} {step : ClientStep} {client other : Nat} {lease : Lease} {path : Path}
  {options : ReadOptions} {i : Image} {view : Lease × Image}

/-- What somebody else does is nothing to the holder of a lease. -/
theorem Moves.lease?_of_ne (h : f.Moves step g) (hne : step.client ≠ client) :
    g.lease? client = f.lease? client := by
  cases h with
  | unmoved => rfl
  | wrote i hstep hlease => rfl
  | @acquired opener =>
    have hne' : client ≠ opener := Ne.symm hne
    rw [lease?_cons, if_neg hne']
    rfl
  | @edited editor =>
    have hne' : client ≠ editor := Ne.symm hne
    rw [lease?_cons, if_neg hne', lookup_without, if_neg hne']
  | @dropped holder =>
    have hne' : client ≠ holder := Ne.symm hne
    rw [lease?, lookup_without, if_neg hne']

theorem view?_eq_some :
    f.view? client = some (lease, i) ↔ f.lease? client = some lease ∧
      f.store.image? lease.path = some i := by
  simp only [view?, Option.bind_eq_bind, Option.bind_eq_some_iff, Option.pure_def,
    Option.some.injEq, Prod.mk.injEq]
  constructor
  · rintro ⟨held, hlease, stored, hi, rfl, rfl⟩
    exact ⟨hlease, hi⟩
  · rintro ⟨hlease, hi⟩
    exact ⟨lease, hlease, i, hi, rfl, rfl⟩

/-- What a client sees stays as it is while others act: nobody else can write where it holds a
lease. -/
theorem Moves.view?_of_ne (h : f.Moves step g) (hf : f.Exclusive) (hne : step.client ≠ client)
    (hview : f.view? client = some view) : g.view? client = some view := by
  obtain ⟨lease, i⟩ := view
  obtain ⟨hlease, hi⟩ := view?_eq_some.mp hview
  refine view?_eq_some.mpr ⟨(h.lease?_of_ne hne).trans hlease, ?_⟩
  by_cases himage : g.store.image? lease.path = f.store.image? lease.path
  · exact himage.trans hi
  · obtain ⟨writer, held, hstep, hheld, hplace⟩ := h.write_of_image?_ne himage
    have hwriter : writer = client := hf.apart
      (place?_eq_some.mpr ⟨held, hheld, hplace⟩) (place?_eq_some.mpr ⟨lease, hlease, rfl⟩)
    exact absurd (hstep.client_eq.trans hwriter) hne

theorem Moves.symbolFormats (h : f.Moves step g) :
    g.store.symbolFormats = f.store.symbolFormats := by
  cases h <;> rfl

end Floor

/-! ## A holder on its own -/

namespace ClientStep

/-- What a step of its own makes of what the holder of a lease sees, in a store that can write
symbols in certain formats. -/
def alone (formats : List SymbolFormat) : ClientStep → Lease × Image → Lease × Image
  | edit _ change, (lease, i) => ({ lease with assembly := change lease.assembly }, i)
  | writeAssembly _, (lease, i) =>
    match Image.encodeBodies lease.assembly with
    | .ok bodies => (lease, i.withAssembly lease.assembly bodies)
    | .error _ => (lease, i)
  | writeSymbols _ format, (lease, i) =>
    if format ∈ formats then
      (lease, { i with
        symbols := lease.assembly.symbolTables.map fun table => table.map fun t => { t with format }
        symbolWrites := i.symbolWrites + 1 })
    else (lease, i)
  | acquire _ _ _, view => view
  | drop _, view => view

end ClientStep

namespace Floor

variable {f : Floor} {step : ClientStep} {client : Nat} {view : Lease × Image}

theorem view?_after_own (hview : f.view? client = some view) (hstep : step.client = client)
    (hkept : step ≠ .drop client) :
    (f.after step).view? client = some (step.alone f.store.symbolFormats view) := by
  obtain ⟨lease, i⟩ := view
  obtain ⟨hlease, hi⟩ := view?_eq_some.mp hview
  cases step with
  | acquire opener path options =>
    obtain rfl : opener = client := hstep
    rw [after_acquire_of_held hlease]
    exact hview
  | drop holder =>
    obtain rfl : holder = client := hstep
    exact absurd rfl hkept
  | edit editor change =>
    obtain rfl : editor = client := hstep
    rw [after_edit hlease]
    refine view?_eq_some.mpr ⟨?_, hi⟩
    rw [lease?_cons]
    exact if_pos rfl
  | writeAssembly writer =>
    obtain rfl : writer = client := hstep
    rw [after_writeAssembly hlease, ClientStep.alone]
    cases hbodies : Image.encodeBodies lease.assembly with
    | error e =>
      have hwrite : f.store.writeAssembly lease.path lease.assembly = .error e := by
        rw [Store.writeAssembly, hbodies]
        rfl
      rw [hwrite]
      exact hview
    | ok bodies =>
      rw [Store.writeAssembly_ok.mpr ⟨i, bodies, hi, hbodies, rfl⟩]
      exact view?_eq_some.mpr ⟨hlease, Store.image?_putImage_self⟩
  | writeSymbols writer format =>
    obtain rfl : writer = client := hstep
    rw [after_writeSymbols hlease, ClientStep.alone]
    by_cases hformat : format ∈ f.store.symbolFormats
    · rw [Store.writeSymbols_ok.mpr ⟨i, hi, hformat, rfl⟩, if_pos hformat]
      exact view?_eq_some.mpr ⟨hlease, Store.image?_putImage_self⟩
    · rw [(Store.writeSymbols_error hi).mpr ⟨hformat, rfl⟩, if_neg hformat]
      exact hview

/-- What the holder of a lease sees after any steps is what its own steps have made of it. -/
theorem view?_afterAll (hf : f.Exclusive) (hview : f.view? client = some view)
    {history : List ClientStep} (hkept : ∀ step ∈ history, step ≠ .drop client) :
    (f.afterAll history).view? client =
      some ((history.filter (·.client == client)).foldl
        (fun view step => step.alone f.store.symbolFormats view) view) := by
  induction history generalizing f view with
  | nil => exact hview
  | cons step history ih =>
    have hmoves := f.moves_after step
    have hrest : ∀ step ∈ history, step ≠ .drop client :=
      fun step hstep => hkept step (List.mem_cons_of_mem _ hstep)
    show ((f.after step).afterAll history).view? client = _
    by_cases hstep : step.client = client
    · rw [List.filter_cons_of_pos (by simpa using hstep), List.foldl_cons,
        ih (hmoves.exclusive hf) (view?_after_own hview hstep (hkept step List.mem_cons_self))
          hrest, hmoves.symbolFormats]
    · rw [List.filter_cons_of_neg (by simpa using hstep),
        ih (hmoves.exclusive hf) (hmoves.view?_of_ne hf hstep hview) hrest, hmoves.symbolFormats]

end Floor

/-! ## Nothing is lost -/

/-- An assembly after some changes. -/
def Assembly.changedBy (a : Assembly) (changes : List (Assembly → Assembly)) : Assembly :=
  changes.foldl (fun a change => change a) a

/-- What the holder of a lease sees is up to date with the changes it has made since it got the
lease: what is stored is the assembly that it opened with the changes it has committed, and its
copy is that assembly with the changes it has not. -/
def UpToDate (opened : Lease) (changes : List (Assembly → Assembly)) (view : Lease × Image) :
    Prop :=
  ∃ committed pending, changes = committed ++ pending ∧
    view.2.assembly = (opened.assembly.changedBy committed).withoutSymbols ∧
    view.1 = { opened with assembly := (opened.assembly.changedBy committed).changedBy pending }

theorem ClientStep.changesOf_of_ne {step : ClientStep} {client : Nat}
    (h : step.client ≠ client) : step.changesOf client = [] := by
  cases step with
  | edit editor change => exact if_neg h
  | acquire | writeAssembly | writeSymbols | drop => rfl

section

variable {opened : Lease} {changes : List (Assembly → Assembly)} {view : Lease × Image}
  {formats : List SymbolFormat} {step : ClientStep} {client : Nat}

theorem Assembly.changedBy_append (a : Assembly) (first second : List (Assembly → Assembly)) :
    a.changedBy (first ++ second) = (a.changedBy first).changedBy second :=
  List.foldl_append

/-- A change is pending until it is written; writing commits all that are pending. -/
theorem upToDate_alone (h : UpToDate opened changes view) (hstep : step.client = client) :
    UpToDate opened (changes ++ step.changesOf client) (step.alone formats view) := by
  obtain ⟨lease, i⟩ := view
  obtain ⟨committed, pending, rfl, hstored, rfl⟩ := h
  subst hstep
  cases step with
  | acquire | drop =>
    rw [show (ClientStep.changesOf _ _ = []) from rfl, List.append_nil]
    exact ⟨committed, pending, rfl, hstored, rfl⟩
  | edit client change =>
    refine ⟨committed, pending ++ [change], ?_, hstored, ?_⟩
    · rw [List.append_assoc]
      exact congrArg _ (congrArg _ (if_pos rfl))
    · rw [Assembly.changedBy_append]
      rfl
  | writeAssembly client =>
    rw [show (ClientStep.changesOf _ _ = []) from rfl, List.append_nil, ClientStep.alone]
    cases Image.encodeBodies _ with
    | error e => exact ⟨committed, pending, rfl, hstored, rfl⟩
    | ok bodies =>
      refine ⟨committed ++ pending, [], (List.append_nil _).symm, ?_, ?_⟩
      · rw [Assembly.changedBy_append]
        rfl
      · rw [Assembly.changedBy_append]
        rfl
  | writeSymbols client format =>
    rw [show (ClientStep.changesOf _ _ = []) from rfl, List.append_nil, ClientStep.alone]
    split
    · exact ⟨committed, pending, rfl, hstored, rfl⟩
    · exact ⟨committed, pending, rfl, hstored, rfl⟩

/-- Steps of its own keep what a holder sees up to date. -/
theorem upToDate_foldl_alone {history : List ClientStep} (h : UpToDate opened changes view)
    (hown : ∀ step ∈ history, step.client = client) :
    UpToDate opened (changes ++ history.flatMap (·.changesOf client))
      (history.foldl (fun view step => step.alone formats view) view) := by
  induction history generalizing changes view with
  | nil => rwa [List.flatMap_nil, List.append_nil]
  | cons step history ih =>
    obtain ⟨hstep, hrest⟩ := List.forall_mem_cons.mp hown
    rw [List.flatMap_cons, ← List.append_assoc]
    exact ih (upToDate_alone h hstep) hrest

/-- All changes that a holder makes are in steps of its own. -/
theorem flatMap_changesOf_filter (history : List ClientStep) (client : Nat) :
    (history.filter (·.client == client)).flatMap (·.changesOf client) =
      history.flatMap (·.changesOf client) := by
  induction history with
  | nil => rfl
  | cons step history ih =>
    by_cases hstep : step.client = client
    · rw [List.filter_cons_of_pos (by simpa using hstep), List.flatMap_cons, List.flatMap_cons, ih]
    · rw [List.filter_cons_of_neg (by simpa using hstep), List.flatMap_cons,
        ClientStep.changesOf_of_ne hstep, List.nil_append, ih]

end

namespace Floor

variable {f : Floor} {client : Nat} {opened : Lease} {changes : List (Assembly → Assembly)}
  {view : Lease × Image}

/-- Whatever others do in between, what the holder of a lease sees stays up to date with its
changes. -/
theorem exists_view?_upToDate (hf : f.Exclusive) (hview : f.view? client = some view)
    (huptodate : UpToDate opened changes view) {history : List ClientStep}
    (hkept : ∀ step ∈ history, step ≠ .drop client) :
    ∃ after, (f.afterAll history).view? client = some after ∧
      UpToDate opened (changes ++ history.flatMap (·.changesOf client)) after := by
  have hown : ∀ step ∈ history.filter (·.client == client), step.client = client :=
    fun step hstep => by simpa using (List.mem_filter.mp hstep).2
  refine ⟨_, view?_afterAll hf hview hkept, ?_⟩
  rw [← flatMap_changesOf_filter]
  exact upToDate_foldl_alone huptodate hown

/-- A lease starts with what is stored. -/
theorem view?_after_acquire {path : Path} {options : ReadOptions} {lease : Lease} {t : Store}
    (hlease : f.lease? client = none)
    (hacquire : (Lease.acquire path options : Edit Store Lease).Ends f.store (.ok lease) t) :
    ∃ i, (f.after (.acquire client path options)).view? client = some (lease, i) ∧
      UpToDate lease [] (lease, i) := by
  obtain ⟨a, hread, rfl, rfl⟩ := Store.ends_acquire_ok.mp hacquire
  obtain ⟨i, hi, -⟩ := Store.image?_of_read_ok hread
  rw [after_acquire_ok hlease hread]
  refine ⟨i, view?_eq_some.mpr ⟨?_, hi⟩, [], [], rfl, ?_, rfl⟩
  · rw [lease?_cons, if_pos rfl]
  · exact i.symbolFree.symm.trans (Store.withoutSymbols_of_read_ok hi hread).symm

/-- What somebody has open cannot be opened again, under whichever spelling of its path. -/
theorem Exclusive.ends_acquire_locked (hf : f.Exclusive) {lease : Lease} {path : Path}
    (hlease : f.lease? client = some lease) (hpath : path.location = lease.path.location)
    (options : ReadOptions) :
    (Lease.acquire path options : Edit Store Lease).Ends f.store
      (.error (.assemblyLocked path)) f.store := by
  obtain ⟨i, hi⟩ := hf.stored hlease
  have himage : f.store.image? path = some i := by
    rw [Store.image?, hpath]
    exact hi
  have hlocked : f.store.isLocked path = true := by
    have hmem := (hf.locked path.location).mpr
      ⟨client, place?_eq_some.mpr ⟨lease, hlease, hpath.symm⟩⟩
    simpa [Store.isLocked, List.contains_eq_mem] using hmem
  refine Store.ends_acquire_error.mpr ⟨?_, rfl⟩
  simp only [Store.read, himage, hlocked, if_true]

end Floor

/-- However the steps of the clients of a store interleave, starting without locks: locks and leases
belong together and no place has two leases; a request to open that fails leaves everything as it
was, and it does fail where a lease is held; an image is replaced only by the holder of a lease of
it, and a write puts the holder's copy there; and from the moment a lease is got until it is given
back, its holder sees what it would see if nobody else were there: a copy that is what is stored
with the changes that it has not committed yet. -/
theorem leases_exclusive {store : Store} (hstore : store.locked = [])
    (history : List ClientStep) :
    let f := (Floor.mk store []).afterAll history
    f.Exclusive ∧
    (∀ client path options e t,
      (Lease.acquire path options : Edit Store Lease).Ends f.store (.error e) t →
        t = f.store ∧ f.after (.acquire client path options) = f) ∧
    (∀ client lease path options, f.lease? client = some lease →
      path.location = lease.path.location →
        (Lease.acquire path options : Edit Store Lease).Ends f.store
          (.error (.assemblyLocked path)) f.store) ∧
    (∀ step path, (f.after step).store.image? path ≠ f.store.image? path →
      ∃ client lease, step.IsWriteOf client ∧ f.lease? client = some lease ∧
        lease.path.location = path.location) ∧
    (∀ client lease after, f.lease? client = some lease →
      (Session.writeAssembly : Edit (Session Store) Unit).Ends ⟨f.store, lease⟩ (.ok ()) after →
        ∃ i, (f.after (.writeAssembly client)).view? client = some (lease, i) ∧
          i.assembly = lease.assembly.withoutSymbols) ∧
    ∀ client path options lease t during, f.lease? client = none →
      (Lease.acquire path options : Edit Store Lease).Ends f.store (.ok lease) t →
      (∀ step ∈ during, step ≠ .drop client) →
        let g := f.after (.acquire client path options)
        (g.afterAll during).view? client =
            (g.afterAll (during.filter (·.client == client))).view? client ∧
          ∃ view, (g.afterAll during).view? client = some view ∧
            UpToDate lease (during.flatMap (·.changesOf client)) view := by
  intro f
  have hf : f.Exclusive :=
    Floor.exclusive_afterAll (Floor.exclusive_of_locked_eq_nil hstore) history
  refine ⟨hf, ?_, ?_, ?_, ?_, ?_⟩
  · intro client path options e t hfails
    obtain ⟨hread, rfl⟩ := Store.ends_acquire_error.mp hfails
    exact ⟨rfl, Floor.after_acquire_error hread⟩
  · intro client lease path options hlease hpath
    exact hf.ends_acquire_locked hlease hpath options
  · intro step path hne
    exact (f.moves_after step).write_of_image?_ne hne
  · intro client lease after hlease hwrite
    obtain ⟨next, hnext, -⟩ := Session.ends_writeAssembly_ok.mp hwrite
    obtain ⟨i, bodies, -, -, rfl⟩ := Store.writeAssembly_ok.mp hnext
    refine ⟨i.withAssembly lease.assembly bodies, ?_, rfl⟩
    rw [Floor.after_writeAssembly hlease, hnext]
    exact Floor.view?_eq_some.mpr ⟨hlease, Store.image?_putImage_self⟩
  · intro client path options lease t during hlease hacquire hkept g
    have hg : g.Exclusive := (f.moves_after _).exclusive hf
    obtain ⟨i, hview, huptodate⟩ := Floor.view?_after_acquire hlease hacquire
    refine ⟨?_, Floor.exists_view?_upToDate hg hview huptodate hkept⟩
    have hown : ∀ step ∈ during.filter (·.client == client), step ≠ .drop client :=
      fun step hstep => hkept step (List.mem_filter.mp hstep).1
    rw [Floor.view?_afterAll hg hview hkept, Floor.view?_afterAll hg hview hown, List.filter_filter]
    simp only [Bool.and_self]

/-! ## A sample -/

namespace Sample

/-- A store with one assembly and no locks. -/
def shared : Store :=
  (Store.empty []).insert ⟨"bin/App.dll"⟩ ⟨"App", [⟨"App.dll", [], [], [], [], none⟩]⟩

def readPlain : ReadOptions :=
  ⟨[], false, .pdb⟩

def rename (name : String) (a : Assembly) : Assembly :=
  { a with name }

/-- One client opens the assembly and gives it back, under different spellings of its path. -/
def earlier : List ClientStep :=
  [.acquire 1 ⟨"bin//App.dll"⟩ readPlain, .acquire 2 ⟨"bin/./App.dll"⟩ readPlain, .drop 2, .drop 1]

/-- While one client works on the assembly another one tries to. -/
def during : List ClientStep :=
  [.acquire 1 ⟨"bin/App.dll"⟩ readPlain, .edit 0 (rename "One"), .edit 1 (rename "Two"),
    .writeAssembly 0, .writeAssembly 1, .edit 0 (rename "Three"), .writeSymbols 0 .pdb, .drop 1]

/-- The lease that the first client gets. -/
def lease : Lease :=
  ⟨⟨"bin/App.dll/"⟩, [], ⟨"App", [⟨"App.dll", [], [], [], [], none⟩]⟩⟩

end Sample

theorem leases_exclusive_sample :
    let f := (Floor.mk Sample.shared []).afterAll Sample.earlier
    let g := f.after (.acquire 0 ⟨"bin/App.dll/"⟩ Sample.readPlain)
    Sample.shared.locked = [] ∧ f.Exclusive ∧ f.lease? 0 = none ∧
      (Lease.acquire ⟨"bin/App.dll/"⟩ Sample.readPlain : Edit Store Lease).Ends f.store
        (.ok Sample.lease) (f.store.lock ⟨"bin/App.dll/"⟩) ∧
      (g.afterAll Sample.during).view? 0 =
        (g.afterAll (Sample.during.filter (·.client == 0))).view? 0 ∧
      ∃ view, (g.afterAll Sample.during).view? 0 = some view ∧
        UpToDate Sample.lease [Sample.rename "One", Sample.rename "Three"] view ∧
        view.1.assembly.name = "Three" ∧ view.2.assembly.name = "One" := by
  intro f g
  obtain ⟨hf, -, -, -, -, hduring⟩ :=
    leases_exclusive (show Sample.shared.locked = [] from rfl) Sample.earlier
  have hnone : f.lease? 0 = none := by decide +kernel
  have hread : (f.store.read ⟨"bin/App.dll/"⟩ Sample.readPlain).1 = .ok Sample.lease.assembly :=
    Store.read_ok.mpr ⟨.ofAssembly Sample.lease.assembly, by decide +kernel, by decide +kernel, rfl⟩
  have hacquire : (Lease.acquire ⟨"bin/App.dll/"⟩ Sample.readPlain : Edit Store Lease).Ends f.store
      (.ok Sample.lease) (f.store.lock ⟨"bin/App.dll/"⟩) :=
    Store.ends_acquire_ok.mpr ⟨_, hread, rfl, rfl⟩
  have hkept : ∀ step ∈ Sample.during, step ≠ .drop 0 := by
    intro step hstep
    simp only [Sample.during, List.mem_cons, List.not_mem_nil, or_false] at hstep
    rcases hstep with rfl | rfl | rfl | rfl | rfl | rfl | rfl | rfl <;> simp
  obtain ⟨hsame, view, hview, huptodate⟩ := hduring 0 _ _ _ _ _ hnone hacquire hkept
  have hnames : ((g.afterAll Sample.during).view? 0).map
      (fun view => (view.1.assembly.name, view.2.assembly.name)) = some ("Three", "One") := by
    decide +kernel
  rw [hview, Option.map_some, Option.some.injEq, Prod.mk.injEq] at hnames
  exact ⟨rfl, hf, hnone, hacquire, hsame, view, hview, huptodate, hnames⟩

end DualInit
