import DualInit.Page.Pass
import DualInit.Proofs.Storage.Requests

/-!
# The stages of a run

A run opens an assembly, equips the types of the copy, and commits it.  This file says what each
stage comes to on a store and puts the stages together:

* `ends_run_ok`: a run succeeds exactly if the assembly can be opened, its types can be equipped
  and the bodies of the result can be encoded; then one image has taken the place of another;
* `store_eq_of_ends_run_error`: a run that fails leaves the store as it was.

Two things are decided by the configuration and the store alone and are given names:
`Assembly.prepared`, the assembly as it is written, and `Store.outcome`, what becomes of the
symbols.  `Image.rewritten` is the image that a run leaves.
-/

namespace DualInit

/-! ## What is written -/

/-- The assembly with the symbols of every section in line with its methods. -/
def Assembly.refreshSymbols (a : Assembly) : Assembly :=
  { a with sections := a.sections.map fun s => s.refreshSymbols.2 }

/-- The assembly as it is written: symbols are only looked after if they are written too. -/
def Assembly.prepared (a : Assembly) : Option SymbolFormat → Assembly
  | none => a
  | some _ => a.refreshSymbols

/-- What becomes of the symbols of an assembly that has been written. -/
def Store.outcome (s : Store) : Option SymbolFormat → SymbolOutcome
  | none => .notRequested
  | some format =>
    if format ∈ s.symbolFormats then .written format
    else .degraded format (.symbolFormatUnsupported format)

/-- The image that a run leaves in the place of one. -/
def Image.rewritten (i : Image) (a : Assembly) (bodies : List ((Nat × Token) × List UInt8)) :
    SymbolOutcome → Image
  | .written format =>
    { i.withAssembly a bodies with
      symbols := a.symbolTables.map fun table => table.map fun t => { t with format }
      symbolWrites := i.symbolWrites + 1 }
  | _ => i.withAssembly a bodies

variable {α : Type}

theorem ends_updateSymbols (s : Section) : updateSymbols.Ends s (.ok ()) s.refreshSymbols.2 := by
  simp only [updateSymbols, Section.bringSymbolsUpToDate, Edit.ends_bind_ok, Edit.ends_current,
    Edit.ends_tellAll, Edit.ends_replace, Edit.ends_pure]
  refine ⟨_, _, ⟨_, _, ⟨rfl, rfl⟩, (), _, ⟨trivial, rfl⟩, (), _, ⟨trivial, rfl⟩, rfl, rfl⟩, ?_⟩
  cases s.refreshSymbols.1 with
  | none => exact Edit.ends_pure.mpr ⟨rfl, rfl⟩
  | some changes =>
    exact Edit.ends_bind_ok.mpr ⟨_, _, Edit.ends_current.mpr ⟨rfl, rfl⟩,
      Edit.ends_tell.mpr ⟨rfl, rfl⟩⟩

theorem ends_eachSection {m : Edit Section α} {a b : Assembly} {r : Except Error (List α)} :
    (eachSection m).Ends a r b ↔
      ∃ sections, (Edit.each m).Ends a.sections r sections ∧ b = { a with sections } :=
  Edit.ends_focus

/-- Bringing the symbols up to date succeeds whatever the assembly. -/
theorem ends_eachSection_updateSymbols {a b : Assembly} {r : Except Error (List Unit)} :
    (eachSection updateSymbols).Ends a r b ↔
      r = .ok (a.sections.map fun _ => ()) ∧ b = a.refreshSymbols := by
  have h : (eachSection updateSymbols).Ends a (.ok (a.sections.map fun _ => ()))
      a.refreshSymbols :=
    ends_eachSection.mpr ⟨_, Edit.ends_each_of_total ends_updateSymbols a.sections, rfl⟩
  constructor
  · intro h'
    exact h'.unique h
  · rintro ⟨rfl, rfl⟩
    exact h

/-! ## Committing -/

namespace Store

variable {path : Path} {a : Assembly} {i : Image} {f : SymbolFormat} {s : Store}
  {bodies : List ((Nat × Token) × List UInt8)}

/-- Symbols in a format that can be written follow their assembly. -/
theorem writeSymbols_of_mem (hf : f ∈ s.symbolFormats) :
    (s.putImage path (i.withAssembly a bodies)).writeSymbols path a f =
      .ok (s.putImage path (i.rewritten a bodies (.written f))) :=
  writeSymbols_ok.mpr ⟨_, image?_putImage_self, hf, (putImage_putImage ..).symm⟩

theorem writeSymbols_of_notMem (hf : f ∉ s.symbolFormats) :
    (s.putImage path i).writeSymbols path a f = .error (.symbolFormatUnsupported f) :=
  (writeSymbols_error image?_putImage_self).mpr ⟨hf, rfl⟩

end Store

variable {s t : Session Store} {e : Error} {format : Option SymbolFormat} {i : Image}
  {bodies : List ((Nat × Token) × List UInt8)}

/-- The session with the assembly as it is written. -/
def Session.prepared (s : Session Store) (format : Option SymbolFormat) : Session Store :=
  ⟨s.storage, { s.lease with assembly := s.lease.assembly.prepared format }⟩

/-- The session once the assembly is written and before its symbols are. -/
def Session.written (s : Session Store) (format : Option SymbolFormat) (i : Image)
    (bodies : List ((Nat × Token) × List UInt8)) : Session Store :=
  ⟨s.storage.putImage s.lease.path (i.withAssembly (s.lease.assembly.prepared format) bodies),
    (s.prepared format).lease⟩

/-- The session after a commit. -/
def Session.committed (s : Session Store) (format : Option SymbolFormat) (i : Image)
    (bodies : List ((Nat × Token) × List UInt8)) : Session Store :=
  ⟨s.storage.putImage s.lease.path
      (i.rewritten (s.lease.assembly.prepared format) bodies (s.storage.outcome format)),
    (s.prepared format).lease⟩

/-- What comes before the assembly is written changes only the copy. -/
theorem ends_commit_iff {r : Except Error SymbolOutcome} :
    (commit format : Edit (Session Store) SymbolOutcome).Ends s r t ↔
      (do Session.writeAssembly
          match format with
          | none => return .notRequested
          | some f =>
            match ← Edit.catching (Session.writeSymbols f) with
            | .ok () => return .written f
            | .error e =>
              Edit.tell (.symbolsNotWritten f e)
              return .degraded f e : Edit (Session Store) SymbolOutcome).Ends
        (s.prepared format) r t := by
  cases format with
  | none => simp only [commit, Edit.ends_current_bind, Edit.ends_tell_bind]; rfl
  | some f =>
    have hedit : (Session.editAssembly (eachSection updateSymbols) :
        Edit (Session Store) (List Unit)).Ends s (.ok _) (s.prepared (some f)) :=
      Session.ends_editAssembly.mpr ⟨_, ends_eachSection_updateSymbols.mpr ⟨rfl, rfl⟩, rfl⟩
    simp only [commit, Edit.ends_current_bind]
    exact hedit.bind_iff.trans Edit.ends_tell_bind

/-- With an image to replace and all bodies encoded, a commit succeeds. -/
theorem ends_commit_of_encodes (hi : s.storage.image? s.lease.path = some i)
    (hbodies : Image.encodeBodies (s.lease.assembly.prepared format) = .ok bodies) :
    (commit format : Edit (Session Store) SymbolOutcome).Ends s
      (.ok (s.storage.outcome format)) (s.committed format i bodies) := by
  have hwrite : Session.writeAssembly.Ends (s.prepared format) (.ok ())
      (s.written format i bodies) :=
    Session.ends_writeAssembly_ok.mpr
      ⟨_, Store.writeAssembly_ok.mpr ⟨i, bodies, hi, hbodies, rfl⟩, rfl⟩
  rw [ends_commit_iff, hwrite.bind_iff]
  cases format with
  | none => exact Edit.ends_pure.mpr ⟨rfl, rfl⟩
  | some f =>
    by_cases hf : f ∈ s.storage.symbolFormats
    · have houtcome : s.storage.outcome (some f) = .written f := if_pos hf
      have hsymbols : (Session.writeSymbols f).Ends (s.written (some f) i bodies) (.ok ()) _ :=
        Session.ends_writeSymbols_ok.mpr ⟨_, Store.writeSymbols_of_mem hf, rfl⟩
      rw [(Edit.ends_catching.mpr ⟨_, hsymbols, rfl⟩).bind_iff]
      exact Edit.ends_pure.mpr ⟨by rw [houtcome], by rw [Session.committed, houtcome]; rfl⟩
    · have houtcome : s.storage.outcome (some f) = .degraded f (.symbolFormatUnsupported f) :=
        if_neg hf
      have hsymbols : (Session.writeSymbols f).Ends (s.written (some f) i bodies)
          (.error (.symbolFormatUnsupported f)) _ :=
        Session.ends_writeSymbols_error.mpr ⟨Store.writeSymbols_of_notMem hf, rfl⟩
      rw [(Edit.ends_catching.mpr ⟨_, hsymbols, rfl⟩).bind_iff, Edit.ends_tell_bind]
      exact Edit.ends_pure.mpr ⟨by rw [houtcome], by rw [Session.committed, houtcome]; rfl⟩

/-- A commit succeeds exactly if there is an image to replace and all bodies can be encoded. -/
theorem ends_commit_ok {outcome : SymbolOutcome} :
    (commit format : Edit (Session Store) SymbolOutcome).Ends s (.ok outcome) t ↔
      ∃ i bodies, s.storage.image? s.lease.path = some i ∧
        Image.encodeBodies (s.lease.assembly.prepared format) = .ok bodies ∧
        outcome = s.storage.outcome format ∧ t = s.committed format i bodies := by
  constructor
  · intro h
    obtain ⟨_, _, hwrite, -⟩ := Edit.ends_bind_ok.mp (ends_commit_iff.mp h)
    obtain ⟨_, hnext, -⟩ := Session.ends_writeAssembly_ok.mp hwrite
    obtain ⟨i, bodies, hi, hbodies, -⟩ := Store.writeAssembly_ok.mp hnext
    obtain ⟨houtcome, rfl⟩ := h.unique (ends_commit_of_encodes hi hbodies)
    exact ⟨i, bodies, hi, hbodies, Except.ok.inj houtcome, rfl⟩
  · rintro ⟨i, bodies, hi, hbodies, rfl, rfl⟩
    exact ends_commit_of_encodes hi hbodies

/-- A commit that fails has written nothing. -/
theorem storage_eq_of_ends_commit_error
    (h : (commit format : Edit (Session Store) SymbolOutcome).Ends s (.error e) t) :
    t.storage = s.storage := by
  rw [ends_commit_iff, Edit.ends_bind_error] at h
  obtain hwrite | ⟨_, u, hwrite, hrest⟩ := h
  · obtain ⟨-, rfl⟩ := Session.ends_writeAssembly_error.mp hwrite
    rfl
  · -- once the assembly is written nothing fails any more
    obtain ⟨_, hnext, rfl⟩ := Session.ends_writeAssembly_ok.mp hwrite
    obtain ⟨i, bodies, hi, hbodies, -⟩ := Store.writeAssembly_ok.mp hnext
    have hok := ends_commit_iff.mp (ends_commit_of_encodes (s := s) hi hbodies)
    exact absurd (hrest.unique (hwrite.bind_iff.mp hok)).1 (by simp)

/-! ## A whole run -/

theorem ends_equipLeased_ok {report : Report} :
    (equipLeased format : Edit (Session Store) Report).Ends s (.ok report) t ↔
      ∃ edited, (equipAssembly s.resolver).Ends s.lease.assembly (.ok report.findings) edited ∧
        (commit format : Edit (Session Store) SymbolOutcome).Ends
          ⟨s.storage, { s.lease with assembly := edited }⟩ (.ok report.symbols) t := by
  rw [equipLeased, Edit.ends_current_bind]
  simp only [Edit.ends_bind_ok, Session.ends_editAssembly, Edit.ends_tell, Edit.ends_pure]
  constructor
  · rintro ⟨findings, _, ⟨edited, hequip, rfl⟩, symbols, _, hcommit, _, _, ⟨-, rfl⟩, hreport, rfl⟩
    obtain rfl := Except.ok.inj hreport
    exact ⟨edited, hequip, hcommit⟩
  · rintro ⟨edited, hequip, hcommit⟩
    exact ⟨_, _, ⟨edited, hequip, rfl⟩, _, _, hcommit, (), _, ⟨trivial, rfl⟩, rfl, rfl⟩

/-- A failure while an assembly is open leaves what is stored as it was. -/
theorem storage_eq_of_ends_equipLeased_error
    (h : (equipLeased format : Edit (Session Store) Report).Ends s (.error e) t) :
    t.storage = s.storage := by
  rw [equipLeased, Edit.ends_current_bind] at h
  simp only [Edit.ends_bind_error, Session.ends_editAssembly, Edit.ends_tell,
    Edit.ends_pure] at h
  obtain ⟨_, -, rfl⟩ | ⟨_, _, ⟨_, -, rfl⟩, hcommit | ⟨_, _, -, hrest⟩⟩ := h
  · rfl
  · have hstorage := storage_eq_of_ends_commit_error hcommit
    exact hstorage
  · exact absurd hrest (by simp)

variable {config : Config} {store store' : Store}

/-- A run succeeds exactly if the assembly can be opened, its types can be equipped and the bodies
of the result can be encoded.  One image has taken the place of another then. -/
theorem ends_run_ok {report : Report} :
    (run config : Edit Store Report).Ends store (.ok report) store' ↔
      ∃ opened edited i bodies, (store.read config.assembly config.readOptions).1 = .ok opened ∧
        (equipAssembly (Codec.resolver store config.assembly config.searchDirectories)).Ends
          opened (.ok report.findings) edited ∧
        store.image? config.assembly = some i ∧
        Image.encodeBodies (edited.prepared config.writerFormat) = .ok bodies ∧
        report.symbols = store.outcome config.writerFormat ∧
        store' = store.putImage config.assembly
          (i.rewritten (edited.prepared config.writerFormat) bodies report.symbols) := by
  rw [run, Edit.ends_tellAll_bind, Edit.ends_tellAll_bind, Store.ends_holding_ok]
  simp only [ends_equipLeased_ok, ends_commit_ok, Session.resolver, Store.resolver_lock]
  constructor
  · rintro ⟨opened, _, hread, ⟨edited, hequip, i, bodies, hi, hbodies, hsymbols, rfl⟩, rfl⟩
    refine ⟨opened, edited, i, bodies, hread, hequip, hi, hbodies, hsymbols, ?_⟩
    obtain ⟨-, -, hlocked⟩ := Store.image?_of_read_ok hread
    rw [hsymbols]
    exact Store.unlock_putImage_lock _ hlocked
  · rintro ⟨opened, edited, i, bodies, hread, hequip, hi, hbodies, hsymbols, rfl⟩
    refine ⟨opened, _, hread, ⟨edited, hequip, i, bodies, hi, hbodies, hsymbols, rfl⟩, ?_⟩
    obtain ⟨-, -, hlocked⟩ := Store.image?_of_read_ok hread
    rw [hsymbols]
    exact (Store.unlock_putImage_lock _ hlocked).symm

/-- A run that fails leaves the store as it was. -/
theorem store_eq_of_ends_run_error
    (h : (run config : Edit Store Report).Ends store (.error e) store') : store' = store := by
  rw [run, Edit.ends_tellAll_bind, Edit.ends_tellAll_bind, Store.ends_holding_error] at h
  obtain ⟨-, rfl⟩ | ⟨opened, v, hread, hwork, rfl⟩ := h
  · rfl
  · obtain ⟨-, -, hlocked⟩ := Store.image?_of_read_ok hread
    rw [storage_eq_of_ends_equipLeased_error hwork]
    exact Store.unlock_lock hlocked

end DualInit
