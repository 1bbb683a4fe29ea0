import DualInit.Proofs.Page.Symbols
import DualInit.Proofs.Run.Sections

/-!
# What is stored can be opened again

An assembly can be opened with symbols if its first section has symbols and all of them are in the
right format.  A pass hides symbols but removes none, so an assembly that was opened with symbols
in a format, and written in the same format, can be opened so again (`exists_read_of_ends_run`).
The one exception is an assembly without sections: once its symbols are written there are none.
-/

namespace DualInit

variable {external : Resolver} {s s' : Section} {format : SymbolFormat}

/-! ## Sections keep their symbols -/

theorem ResourceSteps.isSome_symbols {resources : List Resource} {found : List Finding}
    (h : ResourceSteps external s resources found s') :
    s'.symbols.isSome = s.symbols.isSome := by
  rw [h.follows.symbols, Option.isSome_map]

theorem Section.isSome_symbols_refreshSymbols (s : Section) :
    s.refreshSymbols.2.symbols.isSome = s.symbols.isSome := by
  rw [symbols_refreshSymbols, Option.isSome_map]

/-- The section that speaks for an assembly has its symbols attached to it. -/
theorem exists_attachSymbols {sections : List Section} {tables : List (Option SymbolTable)}
    {table : SymbolTable} (hsections : sections ≠ []) (htables : tables.head? = some (some table)) :
    ∃ s, (Store.attachSymbols sections tables)[0]? = some s ∧ s.symbols = some table := by
  cases sections with
  | nil => exact absurd rfl hsections
  | cons s sections =>
    cases tables with
    | nil => exact absurd htables (by simp)
    | cons first tables =>
      obtain rfl := Option.some.inj htables
      exact ⟨_, rfl, rfl⟩

/-- After a pass over an assembly that was opened with symbols its first section has symbols to
write. -/
theorem Assembly.Pass.exists_symbols {a b : Assembly} {findings : List (List Finding)}
    (h : a.Pass external findings b) (hs : a.sections[0]? = some s)
    (hsymbols : s.symbols.isSome = true) :
    ∃ table, (b.prepared (some format)).symbolTables.head? = some (some table) := by
  obtain ⟨_, s', -, hs', hsteps⟩ := h.sections 0 s hs
  have hsome : s'.refreshSymbols.2.symbols.isSome = true := by
    rw [Section.isSome_symbols_refreshSymbols, hsteps.isSome_symbols, hsymbols]
  obtain ⟨table, htable⟩ := Option.isSome_iff_exists.mp hsome
  refine ⟨table, ?_⟩
  rw [List.head?_eq_getElem?, prepared, refreshSymbols, symbolTables, List.map_map,
    List.getElem?_map, hs']
  exact congrArg some htable

/-! ## Opening once more -/

variable {store store' : Store} {config : Config} {report : Report} {before : Image}

/-- After a run that reads and writes symbols in one format, the stored image has symbols for its
first section, and symbols in no other format for any. -/
theorem symbols_rewritten {a b : Assembly} {findings : List (List Finding)} {table : SymbolTable}
    {bodies : List ((Nat × Token) × List UInt8)} {outcome : SymbolOutcome}
    (hpass : a.Pass external findings b)
    (hhead : before.symbols.head? = some (some table))
    (hformat : ∀ table, some table ∈ before.symbols.take before.assembly.sections.length →
      table.format = format)
    (ha : a = { before.assembly with
      sections := Store.attachSymbols before.assembly.sections before.symbols })
    (houtcome : outcome = store.outcome (some format))
    (hsections : outcome = .written format → before.assembly.sections ≠ []) :
    (∃ table, (before.rewritten (b.prepared (some format)) bodies outcome).symbols.head? =
        some (some table)) ∧
      ∀ table, some table ∈ (before.rewritten (b.prepared (some format)) bodies
          outcome).symbols.take before.assembly.sections.length → table.format = format := by
  rw [Store.outcome] at houtcome
  split at houtcome
  · obtain ⟨s, hs, hsymbols⟩ := exists_attachSymbols (hsections houtcome) hhead
    have hs' : a.sections[0]? = some s := by
      rw [ha]
      exact hs
    obtain ⟨table, htable⟩ : ∃ table, (b.prepared (some format)).symbolTables.head? =
        some (some table) := hpass.exists_symbols hs' (by rw [hsymbols]; rfl)
    rw [houtcome]
    constructor
    · refine ⟨{ table with format }, ?_⟩
      show (List.map _ _).head? = _
      rw [List.head?_map, htable]
      rfl
    · intro table hmem
      obtain ⟨first, -, hfirst⟩ := List.mem_map.mp (List.mem_of_mem_take hmem)
      obtain ⟨_, -, rfl⟩ := Option.map_eq_some_iff.mp hfirst
      rfl
  · rw [houtcome]
    exact ⟨⟨table, hhead⟩, hformat⟩

/-- What a run has stored can be opened as it was opened for the run: without symbols always, and
with them if they are written in the format in which they are read and there is a section to write
them for. -/
theorem exists_read_of_ends_run
    (hrun : (run config : Edit Store Report).Ends store (.ok report) store')
    (hbefore : store.image? config.assembly = some before)
    (hadmits : before.assembly.Admits report.findings)
    (hformat : config.debugSymbols = true → config.writerFormat = some config.readerFormat)
    (hsections : ∀ format, report.symbols = .written format → before.assembly.sections ≠ []) :
    ∃ opened, (store'.read config.assembly config.readOptions).1 = .ok opened := by
  obtain ⟨a, b, bodies, hread, hpass, hbodies, houtcome, rfl⟩ :=
    pass_of_ends_run hrun hbefore hadmits
  have hpassed : before.Passed _ _ (before.rewritten _ bodies report.symbols) :=
    hpass.passed (Store.withoutSymbols_of_read_ok hbefore hread) hbodies
  obtain ⟨i, hi, hlocked, hopened⟩ := Store.read_ok.mp hread
  obtain rfl := Option.some.inj (hbefore.symm.trans hi)
  refine Store.exists_read Store.image?_putImage_self hlocked fun hsymbols => ?_
  rw [if_pos hsymbols] at hopened
  obtain ⟨⟨table, hhead⟩, hformats, ha⟩ := Store.withSymbols_ok.mp hopened
  rw [hpassed.length]
  rw [hformat hsymbols] at houtcome ⊢
  exact symbols_rewritten hpass hhead hformats ha houtcome fun h => hsections _ h

end DualInit
