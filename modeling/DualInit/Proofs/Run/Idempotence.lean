import DualInit.Proofs.Run.Frame
import DualInit.Proofs.Run.Reopening
import DualInit.Proofs.Run.Resolving

/-!
# Running twice

A run finds what an earlier run has left: the two initializers, the flag constructor, the
reference to the base constructor.  `run_run` says that the second run succeeds, that it stores the
same assembly with the same bodies, and that it reports the same, except that it has split and
added nothing.
-/

namespace DualInit

/-- The report of a run that finds everything in place. -/
def Report.again (r : Report) : Report :=
  ⟨r.findings.map (·.map (·.again)), r.symbols⟩

section

variable {external other : Resolver} {findings : List (List Finding)} {a b : Assembly}

/-! ## A second pass -/

theorem exists_ends_equipSection {s : Section} {found : List Finding} (hs : s.TokensDistinct)
    (h : List.Forall₂ (Settled external s) s.resources found) :
    ∃ s', (equipSection external).Ends s (.ok (found.map (·.again))) s' ∧
      s'.withoutSymbols = s.withoutSymbols := by
  obtain ⟨s', hends, hsymbols⟩ := ends_equipResources_of_settled hs h
  exact ⟨s', ends_equipSection.mpr hends, hsymbols⟩

variable {before after : Image}

/-- A pass over an assembly that a run has left changes nothing but symbols, also if it is made with
another resolver that offers the same constructors. -/
theorem Image.Passed.exists_ends_equipAssembly (h : before.Passed external findings after)
    (hadmits : before.assembly.Admits findings) (hone : before.assembly.HasOneInitializer)
    (hoffers : ∀ r, other.offers r = external.offers r)
    (hopened : a.withoutSymbols = after.assembly.withoutSymbols) :
    ∃ b, (equipAssembly other).Ends a (.ok (findings.map (·.map (·.again)))) b ∧
      b.withoutSymbols = a.withoutSymbols := by
  have hlength : (findings.map (·.map (·.again))).length = a.sections.length := by
    rw [List.length_map, h.findings_length, length_sections hopened, h.length]
  have hsections : ∀ (k : Nat) (s : Section) (found : List Finding), a.sections[k]? = some s →
      (findings.map (·.map (·.again)))[k]? = some found →
      ∃ s', (equipSection other).Ends s (.ok found) s' ∧
        s'.withoutSymbols = s.withoutSymbols := by
    intro k s found hs hfound
    obtain ⟨found', hfound', rfl⟩ := Option.map_eq_some_iff.mp (List.getElem?_map ▸ hfound)
    obtain ⟨stored, hstored, hsymbols⟩ := exists_section hopened.symm hs
    have hk : k < before.assembly.sections.length := by
      rw [← h.findings_length]
      exact (List.getElem?_eq_some_iff.mp hfound').1
    have hbefore := List.getElem?_eq_getElem hk
    have hmem := List.mem_of_getElem? hbefore
    obtain ⟨_, _, hfound'', hstored', hpassed⟩ := h.sections k _ hbefore
    obtain rfl := Option.some.inj (hfound'.symm.trans hfound'')
    obtain rfl := Option.some.inj (hstored.symm.trans hstored')
    have hdistinct := hpassed.tokensDistinct (hadmits.distinct _ hmem)
    have hsettled := hpassed.settled (hone _ hmem)
    obtain ⟨symbols, rfl⟩ := Section.exists_symbols hsymbols.symm
    exact exists_ends_equipSection (tokensDistinct_congr hdistinct hsymbols.symm)
      (hsettled.imp fun _ _ h => h.congr hsymbols.symm hoffers)
  obtain ⟨sections, heach, hkeep⟩ := Edit.exists_ends_each hlength hsections
  exact ⟨_, ends_eachSection.mpr ⟨sections, heach, rfl⟩, congrArg (Assembly.mk a.name) hkeep⟩

/-! ## A second run -/

variable {store store' : Store} {config : Config} {report : Report}

/-- A run that succeeds can be repeated.  The second run succeeds too, stores the same assembly and
the same bodies, and has the same to report, but has split and added nothing.  If symbols are
written, they have to be written in the format they are read in, and there has to be a section to
write them for. -/
theorem run_run (hrun : (run config : Edit Store Report).Ends store (.ok report) store')
    (hbefore : store.image? config.assembly = some before)
    (hadmits : before.assembly.Admits report.findings)
    (hone : before.assembly.HasOneInitializer)
    (hformat : config.debugSymbols = true → config.writerFormat = some config.readerFormat)
    (hsections : ∀ format, report.symbols = .written format → before.assembly.sections ≠ []) :
    ∃ store'' first second, (run config : Edit Store Report).Ends store' (.ok report.again) store'' ∧
      store'.image? config.assembly = some first ∧ store''.image? config.assembly = some second ∧
      second.assembly = first.assembly ∧ second.bodies = first.bodies := by
  obtain ⟨opened, hread⟩ := exists_read_of_ends_run hrun hbefore hadmits hformat hsections
  obtain ⟨a, b, bodies, hread₁, hpass, hbodies, houtcome, rfl⟩ :=
    pass_of_ends_run hrun hbefore hadmits
  have hpassed : before.Passed _ _ (before.rewritten _ bodies report.symbols) :=
    hpass.passed (Store.withoutSymbols_of_read_ok hbefore hread₁) hbodies
  generalize before.rewritten (b.prepared config.writerFormat) bodies report.symbols = first
    at hread hpassed ⊢
  have hfirst : (store.putImage config.assembly first).image? config.assembly = some first :=
    Store.image?_putImage_self
  have hopened := Store.withoutSymbols_of_read_ok hfirst hread
  have hoffers := Store.offers_putImage hbefore (hpassed.offered hadmits.distinct)
    config.assembly config.searchDirectories
  obtain ⟨c, hequip, hkept⟩ := hpassed.exists_ends_equipAssembly hadmits hone hoffers hopened
  have hsame : (c.prepared config.writerFormat).withoutSymbols = first.assembly := by
    rw [withoutSymbols_prepared, hkept, hopened, first.symbolFree]
  have hbodies' : Image.encodeBodies (c.prepared config.writerFormat) = .ok first.bodies := by
    rw [← hpassed.bodies]
    refine Image.encodeBodies_congr ?_
    rw [hsame, first.symbolFree]
  refine ⟨_, first, _, ends_run_ok.mpr ⟨opened, c, first, first.bodies, hread, hequip, hfirst,
    hbodies', houtcome, rfl⟩, hfirst, Store.image?_putImage_self, ?_, ?_⟩
  · rw [assembly_rewritten, hsame]
  · rw [bodies_rewritten]

end

theorem run_run_sample : ∃ store'' first second,
    (run Sample.config : Edit Store Report).Ends (Sample.rewritten .void) (.ok Sample.report.again)
        store'' ∧
      (Sample.rewritten .void).image? Sample.config.assembly = some first ∧
      store''.image? Sample.config.assembly = some second ∧
      second.assembly = first.assembly ∧ second.bodies = first.bodies :=
  run_run Sample.ends_run_void rfl (Sample.admits .void) (Sample.hasOneInitializer .void)
    (fun h => absurd h Bool.false_ne_true) (fun _ _ => List.cons_ne_nil _ _)

/-! ## Assemblies without sections -/

namespace Sample

def configWithSymbols : Config :=
  { config with debugSymbols := true, readerFormat := .mdb }

/-- An assembly whose only section has symbols. -/
def assemblyWithSymbols : Assembly :=
  ⟨"App", [{ Section.empty "App.dll" with symbols := some ⟨.mdb, .empty⟩ }]⟩

/-- The store after an assembly without sections was written in the place of the one with symbols,
which are still there. -/
def emptied : Store :=
  ⟨[(config.assembly.location, ⟨⟨"App", []⟩, [some ⟨.mdb, .empty⟩], [], 1, 0, rfl⟩)], [], [.mdb]⟩

end Sample

/-- Writing the symbols of an assembly without sections leaves none, and the assembly cannot be
opened with symbols any more. -/
theorem exists_run_not_repeatable : ∃ before,
    ((Store.empty [.mdb]).insert Sample.config.assembly Sample.assemblyWithSymbols).writeAssembly
        Sample.config.assembly ⟨"App", []⟩ = .ok Sample.emptied ∧
      Sample.emptied.image? Sample.config.assembly = some before ∧
      before.assembly.Admits [] ∧ before.assembly.HasOneInitializer ∧
      Sample.configWithSymbols.writerFormat = some Sample.configWithSymbols.readerFormat ∧
      ((run Sample.configWithSymbols : Edit Store Report).run Sample.emptied).result =
        .ok ⟨[], .written .mdb⟩ ∧
      ((run Sample.configWithSymbols : Edit Store Report).run
        ((run Sample.configWithSymbols : Edit Store Report).run Sample.emptied).state).result =
        .error (.symbolsNotFound Sample.config.assembly .mdb) := by
  refine ⟨_, ?_, rfl, ⟨?_, ?_⟩, ?_, rfl, ?_, ?_⟩
  · decide +kernel
  · exact fun s hs => absurd hs List.not_mem_nil
  · exact fun k s found hs => absurd hs (by simp)
  · exact fun s hs => absurd hs List.not_mem_nil
  · decide +kernel
  · decide +kernel

end DualInit
