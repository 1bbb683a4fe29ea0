import DualInit.Proofs.Storage.Symbols

/-!
# What was stored is what is opened

An assembly and its symbols are stored apart and come together again when the assembly is opened.
There are two ways of storing them: the assembly is put in a place together with the symbols that
it has, or it is written there and so are its symbols, in a format.  `Store.Deposited` says that
one of these has happened, and `Image.Holds` what all of them come to.

Symbols are given back by position.  That they reach the sections they were taken from is
`attachSymbols_symbolTables`; what opening makes of it is `Image.Holds.withSymbols_ok`: the
assembly can be opened with symbols in a format exactly if the section that speaks for it has
symbols and all symbols that there are, are in this format.  `ends_open_of_deposited` reads this on
the store, together with the locks.
-/

namespace DualInit

/-! ## Symbols in one format -/

/-- The section with its symbols, if there are any, in a format. -/
def Section.inFormat (format : SymbolFormat) (s : Section) : Section :=
  { s with symbols := s.symbols.map fun table => { table with format } }

/-- Symbols that are in a format are not changed by being put into it. -/
theorem Section.inFormat_eq_self {format : SymbolFormat} {s : Section}
    (h : ∀ table, s.symbols = some table → table.format = format) : s.inFormat format = s := by
  have hsymbols : (s.symbols.map fun table => { table with format }) = s.symbols := by
    cases htable : s.symbols with
    | none => rfl
    | some table => rw [Option.map_some, ← h table htable]
  rw [inFormat, hsymbols]

namespace Assembly

/-- The assembly with all symbols that there are in a format. -/
def inFormat (format : SymbolFormat) (a : Assembly) : Assembly :=
  { a with sections := a.sections.map (·.inFormat format) }

/-- All symbols that there are, are in a format; sections may have none. -/
def SymbolsIn (format : SymbolFormat) (a : Assembly) : Prop :=
  ∀ s ∈ a.sections, ∀ table, s.symbols = some table → table.format = format

/-- The section that speaks for the assembly has symbols. -/
def ManifestHasSymbols (a : Assembly) : Prop :=
  ∃ s table, a.manifest? = some s ∧ s.symbols = some table

variable {a : Assembly} {format other : SymbolFormat}

theorem inFormat_of_symbolsIn (h : a.SymbolsIn format) : a.inFormat format = a := by
  have hsections : a.sections.map (·.inFormat format) = a.sections :=
    (List.map_congr_left fun s hs => Section.inFormat_eq_self (h s hs)).trans (List.map_id _)
  rw [inFormat, hsections]

theorem withoutSymbols_inFormat : (a.inFormat format).withoutSymbols = a.withoutSymbols := by
  simp only [withoutSymbols, inFormat, List.map_map]
  rfl

theorem symbolTables_inFormat : (a.inFormat format).symbolTables =
    a.symbolTables.map fun table => table.map fun t => { t with format } := by
  simp only [symbolTables, inFormat, List.map_map]
  rfl

theorem symbolsIn_inFormat : (a.inFormat format).SymbolsIn format := by
  intro s hs table htable
  obtain ⟨s', -, rfl⟩ := List.mem_map.mp hs
  obtain ⟨_, -, rfl⟩ := Option.map_eq_some_iff.mp htable
  rfl

/-- Changing the format of symbols neither adds nor removes any. -/
theorem manifestHasSymbols_inFormat :
    (a.inFormat format).ManifestHasSymbols ↔ a.ManifestHasSymbols := by
  simp only [ManifestHasSymbols, manifest?, inFormat, List.head?_map, Option.map_eq_some_iff]
  constructor
  · rintro ⟨_, _, ⟨s, hs, rfl⟩, htable⟩
    obtain ⟨table, htable, -⟩ := Option.map_eq_some_iff.mp htable
    exact ⟨s, table, hs, htable⟩
  · rintro ⟨s, table, hs, htable⟩
    exact ⟨_, _, ⟨s, hs, rfl⟩, by rw [Section.inFormat, htable]; rfl⟩

/-- Symbols are in one format only. -/
theorem not_symbolsIn_inFormat (hother : other ≠ format) (h : a.hasSymbols = true) :
    ¬ (a.inFormat format).SymbolsIn other := by
  obtain ⟨s, hs, hsome⟩ := List.any_eq_true.mp h
  obtain ⟨table, htable⟩ := Option.isSome_iff_exists.mp hsome
  have hsymbols : (s.inFormat format).symbols = some { table with format } := by
    rw [Section.inFormat, htable]
    rfl
  intro hall
  exact hother (hall _ (List.mem_map_of_mem hs) _ hsymbols).symm

end Assembly

/-! ## What an image holds -/

/-- The image is one of the assembly, with the symbols that the assembly has. -/
structure Image.Holds (i : Image) (a : Assembly) : Prop where
  /-- The assembly is stored without its symbols. -/
  assembly : i.assembly = a.withoutSymbols
  /-- Its symbols are stored in the order of its sections. -/
  symbols : i.symbols = a.symbolTables

namespace Store

variable {path : Path} {format : SymbolFormat} {i : Image} {a b : Assembly}

/-- Sections get back the symbols that were taken from them. -/
theorem attachSymbols_symbolTables (sections : List Section) :
    attachSymbols (sections.map Section.withoutSymbols) (sections.map (·.symbols)) = sections := by
  induction sections with
  | nil => rfl
  | cons s sections ih =>
    rw [List.map_cons, List.map_cons]
    cases htable : s.symbols with
    | none =>
      have hs : s.withoutSymbols = s := by rw [Section.withoutSymbols, ← htable]
      rw [attachSymbols, ih, hs]
    | some table =>
      have hs : { s.withoutSymbols with symbols := some table } = s := by
        rw [Section.withoutSymbols, ← htable]
      rw [attachSymbols, ih, hs]

/-- An assembly that cannot be opened with symbols lacks them in the format asked for. -/
theorem withSymbols_cases (path : Path) (i : Image) (format : SymbolFormat) :
    (∃ a, (withSymbols path i format).1 = .ok a) ∨
      (withSymbols path i format).1 = .error (.symbolsNotFound path format) := by
  unfold withSymbols
  split
  · split
    · exact Or.inr rfl
    · exact Or.inl ⟨_, rfl⟩
  · exact Or.inr rfl

end Store

namespace Image.Holds

variable {path : Path} {format : SymbolFormat} {i : Image} {a b : Assembly}

/-- The assembly that an image holds is opened with its symbols if the section that speaks for it
has some and all of them are in the format asked for. -/
theorem withSymbols_ok (h : i.Holds a) : (Store.withSymbols path i format).1 = .ok b ↔
    a.ManifestHasSymbols ∧ a.SymbolsIn format ∧ b = a := by
  have hhead : (∃ table, i.symbols.head? = some (some table)) ↔ a.ManifestHasSymbols := by
    simp only [h.symbols, Assembly.symbolTables, List.head?_map, Option.map_eq_some_iff,
      Assembly.ManifestHasSymbols, Assembly.manifest?]
    exact exists_comm
  have hlength : i.symbols.take i.assembly.sections.length = a.symbolTables := by
    rw [h.symbols, h.assembly, List.take_of_length_le]
    simp [Assembly.symbolTables, Assembly.withoutSymbols]
  have hformat : (∀ table, some table ∈ i.symbols.take i.assembly.sections.length →
      table.format = format) ↔ a.SymbolsIn format := by
    rw [hlength]
    constructor
    · intro hall s hs table htable
      exact hall table (List.mem_map.mpr ⟨s, hs, htable⟩)
    · intro hall table htable
      obtain ⟨s, hs, hsymbols⟩ := List.mem_map.mp htable
      exact hall s hs table hsymbols
  have hjoined : { i.assembly with
      sections := Store.attachSymbols i.assembly.sections i.symbols } = a := by
    rw [h.symbols, h.assembly]
    exact congrArg (Assembly.mk a.name) (Store.attachSymbols_symbolTables a.sections)
  rw [Store.withSymbols_ok, hhead, hformat, hjoined]

theorem withSymbols_error (h : i.Holds a) (hlacks : ¬ (a.ManifestHasSymbols ∧ a.SymbolsIn format)) :
    (Store.withSymbols path i format).1 = .error (.symbolsNotFound path format) := by
  rcases Store.withSymbols_cases path i format with ⟨b, hb⟩ | herror
  · obtain ⟨hmanifest, hformat, -⟩ := h.withSymbols_ok.mp hb
    exact absurd ⟨hmanifest, hformat⟩ hlacks
  · exact herror

end Image.Holds

/-! ## Storing and opening -/

namespace Store

/-- An assembly has come to be stored at a path, with its symbols in a format. -/
inductive Deposited (s : Store) (path : Path) (a : Assembly) (format : SymbolFormat) : Store → Prop
    where
  /-- It was put there, and all its symbols were in the format. -/
  | inserted (hformat : a.SymbolsIn format) : Deposited s path a format (s.insert path a)
  /-- It was written in the place of what was there, and then its symbols were. -/
  | symbolsLast {between t : Store} (hassembly : s.writeAssembly path a = .ok between)
      (hsymbols : between.writeSymbols path a format = .ok t) : Deposited s path a format t
  /-- Its symbols were written in the place of those that were there, and then it was. -/
  | symbolsFirst {between t : Store} (hsymbols : s.writeSymbols path a format = .ok between)
      (hassembly : between.writeAssembly path a = .ok t) : Deposited s path a format t

variable {s t : Store} {path : Path} {format : SymbolFormat} {i : Image} {a : Assembly}

theorem isLocked_lock : (t.lock path).isLocked path = true := by
  simp [isLocked, lock]

/-- Whichever way an assembly was stored, there is an image of it, and the locks are as they were. -/
theorem Deposited.exists_holds (h : s.Deposited path a format t) :
    (∃ i, t.image? path = some i ∧ i.Holds (a.inFormat format)) ∧ t.locked = s.locked := by
  cases h with
  | inserted hformat =>
    refine ⟨⟨_, image?_putImage_self, ?_⟩, rfl⟩
    rw [Assembly.inFormat_of_symbolsIn hformat]
    exact ⟨rfl, rfl⟩
  | symbolsLast hassembly hsymbols =>
    obtain ⟨i, bodies, -, -, rfl⟩ := writeAssembly_ok.mp hassembly
    obtain ⟨j, hj, -, rfl⟩ := writeSymbols_ok.mp hsymbols
    obtain rfl := Option.some.inj (image?_putImage_self.symm.trans hj)
    refine ⟨⟨_, image?_putImage_self, ?_⟩, rfl⟩
    exact ⟨Assembly.withoutSymbols_inFormat.symm, Assembly.symbolTables_inFormat.symm⟩
  | symbolsFirst hsymbols hassembly =>
    obtain ⟨i, -, -, rfl⟩ := writeSymbols_ok.mp hsymbols
    obtain ⟨j, bodies, hj, -, rfl⟩ := writeAssembly_ok.mp hassembly
    obtain rfl := Option.some.inj (image?_putImage_self.symm.trans hj)
    refine ⟨⟨_, image?_putImage_self, ?_⟩, rfl⟩
    exact ⟨Assembly.withoutSymbols_inFormat.symm, Assembly.symbolTables_inFormat.symm⟩

/-- Opening an assembly with symbols, while it is not open, comes to what its image offers. -/
theorem read_of_not_locked (hi : t.image? path = some i) (hfree : t.isLocked path = false)
    (directories : List Path) (format : SymbolFormat) :
    t.read path ⟨directories, true, format⟩ = withSymbols path i format := by
  simp only [read, hi, hfree, if_true, Bool.false_eq_true, if_false]

/-- Once an assembly is stored and not open, it can be opened again as it was stored.  With
symbols in the format in which they were stored it comes with these symbols, unless the section
that speaks for it has none; without symbols it comes without any; and with symbols in another
format it does not come at all if there are some.  It is locked exactly if it is opened. -/
theorem ends_open_of_deposited (hfree : s.isLocked path = false)
    (h : s.Deposited path a format t) (directories : List Path) :
    (t.isLocked path = false ∧ (t.lock path).isLocked path = true) ∧
    (a.ManifestHasSymbols →
      (Codec.openAssembly path ⟨directories, true, format⟩ : Edit Store Assembly).Ends t
        (.ok (a.inFormat format)) (t.lock path)) ∧
    (¬ a.ManifestHasSymbols →
      (Codec.openAssembly path ⟨directories, true, format⟩ : Edit Store Assembly).Ends t
        (.error (.symbolsNotFound path format)) t) ∧
    (∀ other,
      (Codec.openAssembly path ⟨directories, false, other⟩ : Edit Store Assembly).Ends t
        (.ok a.withoutSymbols) (t.lock path)) ∧
    ∀ other, other ≠ format → a.hasSymbols = true →
      (Codec.openAssembly path ⟨directories, true, other⟩ : Edit Store Assembly).Ends t
        (.error (.symbolsNotFound path other)) t := by
  obtain ⟨⟨i, hi, hholds⟩, hlocked⟩ := h.exists_holds
  have hfree' : t.isLocked path = false := by
    rw [isLocked, hlocked]
    exact hfree
  have hread := read_of_not_locked hi hfree' directories
  refine ⟨⟨hfree', isLocked_lock⟩, ?_, ?_, ?_, ?_⟩
  · intro hmanifest
    have hopened : (withSymbols path i format).1 = .ok (a.inFormat format) :=
      hholds.withSymbols_ok.mpr
        ⟨Assembly.manifestHasSymbols_inFormat.mpr hmanifest, Assembly.symbolsIn_inFormat, rfl⟩
    exact ends_openAssembly.mpr ⟨by rw [hread, hopened], rfl⟩
  · intro hmanifest
    have hrefused : (withSymbols path i format).1 = .error (.symbolsNotFound path format) :=
      hholds.withSymbols_error fun hboth =>
        hmanifest (Assembly.manifestHasSymbols_inFormat.mp hboth.1)
    exact ends_openAssembly.mpr ⟨by rw [hread, hrefused], rfl⟩
  · intro other
    have hassembly : i.assembly = a.withoutSymbols :=
      hholds.assembly.trans Assembly.withoutSymbols_inFormat
    have hplain : (t.read path ⟨directories, false, other⟩).1 = .ok a.withoutSymbols := by
      rw [← hassembly]
      exact read_ok.mpr ⟨i, hi, hfree', rfl⟩
    exact ends_openAssembly.mpr ⟨hplain.symm, rfl⟩
  · intro other hother hsymbols
    have hrefused : (withSymbols path i other).1 = .error (.symbolsNotFound path other) :=
      hholds.withSymbols_error fun hboth =>
        Assembly.not_symbolsIn_inFormat hother hsymbols hboth.2
    exact ends_openAssembly.mpr ⟨by rw [hread, hrefused], rfl⟩

end Store

/-! ## A sample -/

namespace Sample

/-- An assembly whose first section has symbols, whose second has none and whose third has some in
another format. -/
def mixed : Assembly :=
  ⟨"App", [⟨"App.dll", [], [], [], [], some ⟨.mdb, .ofList [(⟨0x06000001⟩, ⟨"Main", []⟩)]⟩⟩,
    ⟨"App.Plain.netmodule", [], [], [], [], none⟩,
    ⟨"App.Extra.netmodule", [], [], [], [], some ⟨.pdb, .empty⟩⟩]⟩

def mixedPath : Path :=
  ⟨"bin/App.dll"⟩

/-- An older version of the assembly, without sections. -/
def older : Image :=
  .ofAssembly ⟨"App", []⟩

def storeOlder : Store :=
  (Store.empty [.mdb, .pdb]).putImage mixedPath older

/-- The store after the assembly was written, and after its symbols were, in one format. -/
def storeMixed : Store :=
  (storeOlder.putImage mixedPath (older.withAssembly mixed [])).putImage mixedPath
    { older.withAssembly mixed [] with
      symbols := mixed.symbolTables.map fun table => table.map fun t => { t with format := .pdb }
      symbolWrites := 1 }

theorem deposited_mixed : storeOlder.Deposited mixedPath mixed .pdb storeMixed :=
  .symbolsLast
    (Store.writeAssembly_ok.mpr ⟨older, [], Store.image?_putImage_self, rfl, rfl⟩)
    (Store.writeSymbols_ok.mpr ⟨_, Store.image?_putImage_self, by decide, rfl⟩)

end Sample

theorem ends_open_of_deposited_sample :
    Sample.storeOlder.isLocked Sample.mixedPath = false ∧
      Sample.storeOlder.Deposited Sample.mixedPath Sample.mixed .pdb Sample.storeMixed ∧
      (Codec.openAssembly Sample.mixedPath ⟨[], true, .pdb⟩ : Edit Store Assembly).Ends
        Sample.storeMixed (.ok (Sample.mixed.inFormat .pdb))
        (Sample.storeMixed.lock Sample.mixedPath) ∧
      (Codec.openAssembly Sample.mixedPath ⟨[], true, .mdb⟩ : Edit Store Assembly).Ends
        Sample.storeMixed (.error (.symbolsNotFound Sample.mixedPath .mdb)) Sample.storeMixed := by
  have hfree : Sample.storeOlder.isLocked Sample.mixedPath = false := rfl
  obtain ⟨-, hopened, -, -, hrefused⟩ :=
    Store.ends_open_of_deposited hfree Sample.deposited_mixed []
  exact ⟨hfree, Sample.deposited_mixed, hopened ⟨_, _, rfl, rfl⟩,
    hrefused .mdb (by decide) (by decide)⟩

end DualInit
