import DualInit.Proofs.Page.Blindness
import DualInit.Proofs.Run.Symbols

/-!
# Symbol settings do not matter to the code

Whether symbols are read and written, and in which formats, is a setting of its own.  A pass does
not look at symbols, what is encoded of an assembly does not depend on them, and what becomes of
them is decided after the assembly was written.  So runs under different settings that both succeed
leave the same code (`run_blind`).

The settings can keep a run from succeeding, since symbols that are asked for have to be there.
Where a run succeeds with symbols, it does without them (`exists_ends_run_plain`), so a writer
format that the store does not have costs nothing but the symbols.
-/

namespace DualInit

/-- Two configurations differ in their symbol settings at most. -/
structure Config.AgreesButSymbols (c c' : Config) : Prop where
  assembly : c'.assembly = c.assembly
  dependencyDirectories : c'.dependencyDirectories = c.dependencyDirectories
  referencePaths : c'.referencePaths = c.referencePaths

/-- The configuration that does without symbols. -/
def Config.plain (c : Config) : Config :=
  { c with debugSymbols := false }

/-- What there is of an image apart from symbols: the assembly, its bodies, and how many times it
was written. -/
def Image.code (i : Image) : Assembly × List ((Nat × Token) × List UInt8) × Nat :=
  (i.assembly, i.bodies, i.writes)

/-- What there is of an image apart from code. -/
def Image.symbolFile (i : Image) : List (Option SymbolTable) × Nat :=
  (i.symbols, i.symbolWrites)

section

variable {config config' : Config} {store store' store'' : Store} {report report' : Report}
  {external : Resolver} {a a' b b' : Assembly} {before : Image}

/-! ## Settings -/

theorem Config.AgreesButSymbols.searchDirectories (h : config.AgreesButSymbols config') :
    config'.searchDirectories = config.searchDirectories := by
  rw [Config.searchDirectories, Config.searchDirectories, Config.referenceDirectories,
    Config.referenceDirectories, h.dependencyDirectories, h.referencePaths]

theorem Config.agreesButSymbols_plain (c : Config) : c.AgreesButSymbols c.plain :=
  ⟨rfl, rfl, rfl⟩

/-! ## One pass over the same code -/

/-- Passes over assemblies that agree but for symbols find the same and leave such assemblies. -/
theorem pass_unique {findings findings' : List (List Finding)}
    (hview : a.withoutSymbols = a'.withoutSymbols)
    (h : (equipAssembly external).Ends a (.ok findings) b)
    (h' : (equipAssembly external).Ends a' (.ok findings') b') :
    findings' = findings ∧ b'.withoutSymbols = b.withoutSymbols := by
  obtain ⟨c, hc, hcb⟩ := (through_equipAssembly external).exists_ends hview h
  obtain ⟨hfindings, rfl⟩ := h'.unique hc
  exact ⟨Except.ok.inj hfindings, hcb⟩

/-- What is written does not depend on symbols, however the assembly is prepared for it. -/
theorem encodeBodies_prepared (h : b'.withoutSymbols = b.withoutSymbols)
    (format format' : Option SymbolFormat) :
    Image.encodeBodies (b'.prepared format') = Image.encodeBodies (b.prepared format) := by
  refine Image.encodeBodies_congr ?_
  rw [withoutSymbols_prepared, withoutSymbols_prepared, h]

theorem code_rewritten {bodies : List ((Nat × Token) × List UInt8)}
    (format : Option SymbolFormat) (outcome : SymbolOutcome) :
    (before.rewritten (b.prepared format) bodies outcome).code =
      (b.withoutSymbols, bodies, before.writes + 1) := by
  rw [Image.code, assembly_rewritten, bodies_rewritten, withoutSymbols_prepared]
  cases outcome <;> rfl

theorem symbolFile_rewritten_degraded {bodies : List ((Nat × Token) × List UInt8)}
    (format : SymbolFormat) (e : Error) :
    (before.rewritten b bodies (.degraded format e)).symbolFile = before.symbolFile :=
  rfl

/-- Putting images with one property in one place leaves stores that agree on it. -/
theorem Store.map_image?_putImage {γ : Type} {path : Path} {i j : Image} {view : Image → γ}
    (hview : view i = view j) (other : Path) :
    ((store.putImage path i).image? other).map view =
      ((store.putImage path j).image? other).map view := by
  rw [image?_putImage, image?_putImage]
  split
  · exact congrArg some hview
  · rfl

/-- Putting an image in the place of one that has the same of some property leaves that as it
was. -/
theorem Store.map_image?_putImage_of_eq {γ : Type} {path : Path} {i : Image} {view : Image → γ}
    (hbefore : store.image? path = some before) (hview : view i = view before) (other : Path) :
    ((store.putImage path i).image? other).map view = (store.image? other).map view := by
  rw [image?_putImage]
  split
  · next hplace =>
    have hother : store.image? other = some before := by
      rw [image?, hplace]
      exact hbefore
    rw [hother]
    exact congrArg some hview
  · rfl

/-! ## Runs -/

/-- Runs under settings that differ in nothing but symbols, and that both succeed, find the same and
leave the same code. -/
theorem code_of_ends_runs (hsame : config.AgreesButSymbols config')
    (hrun : (run config : Edit Store Report).Ends store (.ok report) store')
    (hrun' : (run config' : Edit Store Report).Ends store (.ok report') store'') :
    report'.findings = report.findings ∧
      ∀ path, (store''.image? path).map Image.code = (store'.image? path).map Image.code := by
  obtain ⟨opened, edited, i, bodies, hread, hequip, hi, hbodies, -, rfl⟩ := ends_run_ok.mp hrun
  obtain ⟨opened', edited', j, bodies', hread', hequip', hj, hbodies', -, rfl⟩ :=
    ends_run_ok.mp hrun'
  rw [hsame.assembly] at hread' hequip' hj ⊢
  rw [hsame.searchDirectories] at hequip'
  obtain rfl := Option.some.inj (hi.symm.trans hj)
  have hopened : opened.withoutSymbols = opened'.withoutSymbols :=
    (Store.withoutSymbols_of_read_ok hi hread).trans
      (Store.withoutSymbols_of_read_ok hi hread').symm
  obtain ⟨hfindings, hedited⟩ := pass_unique hopened hequip hequip'
  refine ⟨hfindings, Store.map_image?_putImage ?_⟩
  rw [encodeBodies_prepared hedited config.writerFormat, hbodies] at hbodies'
  rw [code_rewritten, code_rewritten, hedited, Except.ok.inj hbodies']

/-- Where a run succeeds, it does without symbols. -/
theorem exists_ends_run_plain
    (hrun : (run config : Edit Store Report).Ends store (.ok report) store') :
    ∃ store'', (run config.plain : Edit Store Report).Ends store
      (.ok ⟨report.findings, .notRequested⟩) store'' := by
  obtain ⟨opened, edited, i, bodies, hread, hequip, hi, hbodies, -, rfl⟩ := ends_run_ok.mp hrun
  obtain ⟨-, -, hlocked⟩ := Store.image?_of_read_ok hread
  have hopened : opened.withoutSymbols = i.assembly.withoutSymbols :=
    Store.withoutSymbols_of_read_ok hi hread
  obtain ⟨edited', hequip', hedited⟩ :=
    (through_equipAssembly _).exists_ends hopened hequip
  have hplain : (store.read config.plain.assembly config.plain.readOptions).1 = .ok i.assembly :=
    Store.read_ok.mpr ⟨i, hi, hlocked, rfl⟩
  rw [← encodeBodies_prepared hedited config.writerFormat config.plain.writerFormat] at hbodies
  exact ⟨_, ends_run_ok.mpr
    ⟨i.assembly, edited', i, bodies, hplain, hequip', hi, hbodies, rfl, rfl⟩⟩

/-- Symbol settings never influence the code.  A run that succeeds finds the same and leaves the
same code as any other that differs in its symbol settings and succeeds.  If the store cannot write
the format that is asked for, the assembly is written as it is without symbols, and the stored
symbols stay as they were. -/
theorem run_blind (hrun : (run config : Edit Store Report).Ends store (.ok report) store') :
    (∀ config' report' store'', config.AgreesButSymbols config' →
      (run config' : Edit Store Report).Ends store (.ok report') store'' →
        report'.findings = report.findings ∧
          ∀ path, (store''.image? path).map Image.code = (store'.image? path).map Image.code) ∧
    ∀ format, config.writerFormat = some format → format ∉ store.symbolFormats →
      report.symbols = .degraded format (.symbolFormatUnsupported format) ∧
        store'.writes config.assembly = store.writes config.assembly + 1 ∧
        (∀ path, (store'.image? path).map Image.symbolFile =
          (store.image? path).map Image.symbolFile) ∧
        ∃ plain, (run config.plain : Edit Store Report).Ends store
            (.ok ⟨report.findings, .notRequested⟩) plain ∧
          ∀ path, (store'.image? path).map Image.code = (plain.image? path).map Image.code := by
  refine ⟨fun config' report' store'' hsame hrun' => code_of_ends_runs hsame hrun hrun', ?_⟩
  intro format hformat hunsupported
  obtain ⟨plain, hplain⟩ := exists_ends_run_plain hrun
  have hcode := (code_of_ends_runs config.agreesButSymbols_plain hrun hplain).2
  obtain ⟨opened, edited, i, bodies, hread, hequip, hi, hbodies, houtcome, rfl⟩ :=
    ends_run_ok.mp hrun
  have hdegraded : report.symbols = .degraded format (.symbolFormatUnsupported format) := by
    rw [houtcome, hformat]
    exact if_neg hunsupported
  refine ⟨hdegraded, ?_, ?_, plain, hplain, fun path => (hcode path).symm⟩
  · rw [Store.writes, Store.writes, Store.image?_putImage_self, hi, hdegraded]
    rfl
  · rw [hdegraded]
    exact Store.map_image?_putImage_of_eq hi (symbolFile_rewritten_degraded _ _)

end

/-! ## A sample -/

namespace Sample

/-- Symbols are read in one format and should be written in another one, which the store of the
sample does not have. -/
def configForeign : Config :=
  configWithSymbols.withSymbolWriter .pdb

/-- The report of a run that could not write symbols. -/
def reportDegraded : Report :=
  ⟨Sample.report.findings, .degraded .pdb (.symbolFormatUnsupported .pdb)⟩

/-- The store after that run. -/
def rewrittenForeign (symbols : List (Token × MethodSymbols)) : Store :=
  ((run configForeign : Edit Store Report).run (storeRecording symbols)).state

theorem ends_run_foreign :
    (run configForeign : Edit Store Report).Ends (storeRecording (symbols ⟨0x06000009⟩))
      (.ok reportDegraded) (rewrittenForeign (symbols ⟨0x06000009⟩)) :=
  ⟨by decide +kernel, rfl⟩

end Sample

theorem run_blind_sample :
    Sample.configForeign.AgreesButSymbols Sample.configWithSymbols ∧
      (run Sample.configForeign : Edit Store Report).Ends
        (Sample.storeRecording (Sample.symbols ⟨0x06000009⟩)) (.ok Sample.reportDegraded)
        (Sample.rewrittenForeign (Sample.symbols ⟨0x06000009⟩)) ∧
      (run Sample.configWithSymbols : Edit Store Report).Ends
        (Sample.storeRecording (Sample.symbols ⟨0x06000009⟩)) (.ok Sample.reportWritten)
        (Sample.rewrittenRecording (Sample.symbols ⟨0x06000009⟩)) ∧
      (∀ path, ((Sample.rewrittenRecording (Sample.symbols ⟨0x06000009⟩)).image? path).map
          Image.code =
        ((Sample.rewrittenForeign (Sample.symbols ⟨0x06000009⟩)).image? path).map Image.code) ∧
      Sample.configForeign.writerFormat = some .pdb ∧
      .pdb ∉ (Sample.storeRecording (Sample.symbols ⟨0x06000009⟩)).symbolFormats ∧
      (∀ path, ((Sample.rewrittenForeign (Sample.symbols ⟨0x06000009⟩)).image? path).map
          Image.symbolFile =
        ((Sample.storeRecording (Sample.symbols ⟨0x06000009⟩)).image? path).map
          Image.symbolFile) ∧
      ∃ plain, (run Sample.configForeign.plain : Edit Store Report).Ends
          (Sample.storeRecording (Sample.symbols ⟨0x06000009⟩))
          (.ok ⟨Sample.report.findings, .notRequested⟩) plain ∧
        ∀ path, ((Sample.rewrittenForeign (Sample.symbols ⟨0x06000009⟩)).image? path).map
            Image.code = (plain.image? path).map Image.code := by
  obtain ⟨hothers, hforeign⟩ := run_blind Sample.ends_run_foreign
  have hunsupported :
      .pdb ∉ (Sample.storeRecording (Sample.symbols ⟨0x06000009⟩)).symbolFormats := by decide
  obtain ⟨-, -, hsymbols, hplain⟩ := hforeign .pdb rfl hunsupported
  have hsame : Sample.configForeign.AgreesButSymbols Sample.configWithSymbols := ⟨rfl, rfl, rfl⟩
  exact ⟨hsame, Sample.ends_run_foreign, Sample.ends_run_symbols,
    (hothers _ _ _ hsame Sample.ends_run_symbols).2, rfl, hunsupported, hsymbols, hplain⟩

end DualInit
