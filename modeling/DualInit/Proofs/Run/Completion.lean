import DualInit.Proofs.Page.Completion
import DualInit.Proofs.Run.Frame

/-!
# One of each, for ever

After a run that succeeds, every class that its report has an entry for has one precompiled
initializer, one initializer for run time and one flag constructor.  `complete_afterRuns` says that
it stays so: whatever runs come next, with whatever configurations, of this assembly or of others,
and whether they succeed or fail.

A run that fails leaves the store as it was, and one of another assembly leaves the image.  One of
the same assembly finds what the first has found (`Assembly.CompletedAs.equip`), so the assembly
stays `CompletedAs` the first report says, along every history of runs (`Store.Keeps.afterRuns`).
-/

namespace DualInit

/-- No type of an assembly has two initializers of one name or two flag constructors. -/
def Assembly.NoDoubles (a : Assembly) : Prop :=
  ∀ s ∈ a.sections, ∀ t ∈ s.types, t.NoDoubles

/-- What was found for the resources of an assembly holds, and the classes that were equipped are
complete. -/
structure Assembly.CompletedAs (findings : List (List Finding)) (a : Assembly) : Prop where
  length : findings.length = a.sections.length
  sections : ∀ (k : Nat) (s : Section) (found : List Finding), a.sections[k]? = some s →
    findings[k]? = some found → s.TokensDistinct ∧ List.Forall₂ (Completed s) s.resources found

/-- The store after several runs, one after the other. -/
def Store.afterRuns (s : Store) (configs : List Config) : Store :=
  configs.foldl (fun s config => ((run config : Edit Store Report).run s).state) s

/-- What was found in the assembly at a path lasts. -/
def Store.Keeps (path : Path) (findings : List (List Finding)) (s : Store) : Prop :=
  ∃ i, s.image? path = some i ∧ i.assembly.CompletedAs findings

section

variable {external : Resolver} {findings findings' : List (List Finding)} {a b : Assembly}
  {s s' : Section} {found : List Finding}

/-! ## Assemblies -/

/-- In a section that was passed over what was found is completed. -/
theorem Section.Passed.completed (h : s.Passed external found s')
    (hone : ∀ t ∈ s.types, t.NoDoubles) : List.Forall₂ (Completed s') s'.resources found := by
  have hresources := h.reworked.resources
  obtain ⟨t, t', hbefore, hsteps, hafter⟩ := h
  obtain ⟨_, rfl⟩ := Section.exists_symbols hbefore
  rw [hresources]
  exact (hsteps.completed hone).imp fun _ _ h => Completed.congr h hafter

namespace Assembly.CompletedAs

theorem congr (h : a.CompletedAs findings) (hsymbols : b.withoutSymbols = a.withoutSymbols) :
    b.CompletedAs findings where
  length := h.length.trans (length_sections hsymbols).symm
  sections := by
    intro k t found ht hfound
    obtain ⟨s, hs, hsame⟩ := exists_section hsymbols.symm ht
    obtain ⟨hdistinct, hcompleted⟩ := h.sections k s found hs hfound
    have hresources : s.resources = t.resources := by
      obtain ⟨_, rfl⟩ := Section.exists_symbols hsame
      rfl
    refine ⟨tokensDistinct_congr hdistinct hsame.symm, ?_⟩
    rw [← hresources]
    exact hcompleted.imp fun _ _ h => Completed.congr h hsame.symm

/-- Equipping an assembly once more finds the same, and what was found lasts. -/
theorem equip (h : a.CompletedAs findings)
    (hends : (equipAssembly external).Ends a (.ok findings') b) :
    findings' = findings.map (·.map (·.again)) ∧ b.CompletedAs findings := by
  obtain ⟨sections, heach, rfl⟩ := ends_eachSection.mp hends
  obtain ⟨hfindings, hsections⟩ := Edit.length_of_ends_each_ok heach
  have hsection : ∀ (k : Nat) (s : Section) (found : List Finding), a.sections[k]? = some s →
      findings[k]? = some found → ∃ s', findings'[k]? = some (found.map (·.again)) ∧
        sections[k]? = some s' ∧ s'.TokensDistinct ∧
        List.Forall₂ (Completed s') s'.resources found := by
    intro k s found hs hfound
    obtain ⟨hdistinct, hcompleted⟩ := h.sections k s found hs hfound
    obtain ⟨found', s', hfound', hs', hequip⟩ := Edit.getElem?_of_ends_each_ok heach k hs
    obtain ⟨hsteps, rfl⟩ :=
      resourceSteps_of_completed hdistinct hcompleted (ends_equipSection.mp hequip)
    refine ⟨s', hfound', hs', hsteps.tokensDistinct hdistinct, ?_⟩
    rw [hsteps.reworked.resources]
    exact hcompleted.imp fun _ _ h => Completed.steps h hsteps
  -- every index is one of a section, or beyond all lists
  have hindex (k : Nat) (hk : k < a.sections.length) : ∃ s found, a.sections[k]? = some s ∧
      findings[k]? = some found :=
    ⟨_, _, List.getElem?_eq_getElem hk, List.getElem?_eq_getElem (h.length ▸ hk)⟩
  refine ⟨List.ext_getElem? fun k => ?_, ⟨h.length.trans hsections.symm, ?_⟩⟩
  · rw [List.getElem?_map]
    by_cases hk : k < a.sections.length
    · obtain ⟨s, found, hs, hfound⟩ := hindex k hk
      obtain ⟨_, hfound', -⟩ := hsection k s found hs hfound
      rw [hfound', hfound]
      rfl
    · rw [List.getElem?_eq_none (by omega), List.getElem?_eq_none (by rw [h.length]; omega)]
      rfl
  · intro k s' found hs' hfound
    have hk : k < a.sections.length := by
      rw [← h.length]
      exact (List.getElem?_eq_some_iff.mp hfound).1
    obtain ⟨s, found', hs, hfound'⟩ := hindex k hk
    obtain rfl := Option.some.inj (hfound'.symm.trans hfound)
    obtain ⟨_, -, hs'', hdistinct, hcompleted⟩ := hsection k s found' hs hfound
    obtain rfl := Option.some.inj (hs'.symm.trans hs'')
    exact ⟨hdistinct, hcompleted⟩

end Assembly.CompletedAs

/-- What a run that succeeds has put in the place of an assembly without doubles. -/
theorem Image.Passed.completedAs {before after : Image} (h : before.Passed external findings after)
    (hadmits : before.assembly.Admits findings) (hone : before.assembly.NoDoubles) :
    after.assembly.CompletedAs findings where
  length := h.findings_length.trans h.length.symm
  sections := by
    intro k s' found hs' hfound
    have hk : k < before.assembly.sections.length := by
      rw [← h.length]
      exact (List.getElem?_eq_some_iff.mp hs').1
    have hs := List.getElem?_eq_getElem hk
    have hmem := List.mem_of_getElem? hs
    obtain ⟨found', s'', hfound', hs'', hpassed⟩ := h.sections k _ hs
    obtain rfl := Option.some.inj (hfound'.symm.trans hfound)
    obtain rfl := Option.some.inj (hs''.symm.trans hs')
    exact ⟨hpassed.tokensDistinct (hadmits.distinct _ hmem), hpassed.completed (hone _ hmem)⟩

/-! ## Runs -/

variable {store store' : Store} {config : Config} {report : Report} {path : Path}

/-- The path of an assembly matters only for the place that it names. -/
theorem Store.image?_congr {other : Path} (h : other.location = path.location) :
    store.image? other = store.image? path := by
  rw [image?, image?, h]

/-- A run of an assembly that is completed finds the same, and leaves it completed. -/
theorem Store.Keeps.of_ends_run (h : store.Keeps path findings)
    (hplace : config.assembly.location = path.location)
    (hrun : (run config : Edit Store Report).Ends store (.ok report) store') :
    report.findings = findings.map (·.map (·.again)) ∧ store'.Keeps path findings := by
  obtain ⟨i, hi, hcompleted⟩ := h
  rw [← Store.image?_congr hplace] at hi
  obtain ⟨opened, edited, i', bodies, hread, hequip, hi', -, -, rfl⟩ := ends_run_ok.mp hrun
  obtain rfl := Option.some.inj (hi.symm.trans hi')
  have hopened := hcompleted.congr (Store.withoutSymbols_of_read_ok hi hread)
  obtain ⟨hfindings, hedited⟩ := hopened.equip hequip
  have hstored : (i.rewritten (edited.prepared config.writerFormat) bodies
      report.symbols).assembly.withoutSymbols = edited.withoutSymbols := by
    rw [assembly_rewritten, withoutSymbols_prepared, Assembly.withoutSymbols_withoutSymbols]
  refine ⟨hfindings, _, ?_, hedited.congr hstored⟩
  rw [← Store.image?_congr hplace]
  exact Store.image?_putImage_self

/-- What was found in an assembly lasts, whatever run comes next. -/
theorem Store.Keeps.run (h : store.Keeps path findings) (config : Config) :
    (((DualInit.run config : Edit Store Report).run store).state).Keeps path findings := by
  have hrun := Edit.ends_run (DualInit.run config : Edit Store Report) store
  cases hresult : ((DualInit.run config : Edit Store Report).run store).result with
  | error e =>
    rw [hresult] at hrun
    rw [store_eq_of_ends_run_error hrun]
    exact h
  | ok report =>
    rw [hresult] at hrun
    by_cases hplace : config.assembly.location = path.location
    · exact (h.of_ends_run hplace hrun).2
    · -- the run puts an image in another place
      obtain ⟨_, _, _, _, -, -, -, -, -, hstore⟩ := ends_run_ok.mp hrun
      obtain ⟨i, hi, hcompleted⟩ := h
      refine ⟨i, ?_, hcompleted⟩
      rw [hstore, Store.image?_putImage, if_neg fun heq => hplace heq.symm]
      exact hi

/-- What was found in an assembly lasts along every history of runs. -/
theorem Store.Keeps.afterRuns (h : store.Keeps path findings) (further : List Config) :
    (store.afterRuns further).Keeps path findings := by
  induction further generalizing store with
  | nil => exact h
  | cons config further ih => exact ih (h.run config)

/-- **One of each, for ever.**  After a run that succeeds, and after any further runs, the stored
assembly has for every entry of the report a type that the entry stands for, and this type has
exactly one precompiled initializer, exactly one initializer for run time and exactly one flag
constructor: those that the entry names.  No later run of the assembly has entries for other
types, or for other methods. -/
theorem complete_afterRuns {before : Image}
    (hrun : (run config : Edit Store Report).Ends store (.ok report) store')
    (hbefore : store.image? config.assembly = some before)
    (hadmits : before.assembly.Admits report.findings) (hone : before.assembly.NoDoubles)
    (further : List Config) :
    (∃ after, (store'.afterRuns further).image? config.assembly = some after ∧
      after.assembly.sections.length = before.assembly.sections.length ∧
      ∀ (k : Nat) (s : Section), after.assembly.sections[k]? = some s →
        ∃ found, report.findings[k]? = some found ∧ s.TokensDistinct ∧
          ∀ e, .equipped e ∈ found → ∃ t ∈ s.types, e.StandsFor s t ∧
            t.Complete e.precompiled e.runtime e.flagConstructor) ∧
    ∀ (config' : Config) (report' : Report) (store'' : Store),
      config'.assembly.location = config.assembly.location →
      (run config' : Edit Store Report).Ends (store'.afterRuns further) (.ok report') store'' →
      report'.findings = report.findings.map (·.map (·.again)) := by
  obtain ⟨first, hfirst, hpassed⟩ := passed_of_ends_run hrun hbefore hadmits
  have hkeeps : store'.Keeps config.assembly report.findings :=
    ⟨first, hfirst, hpassed.completedAs hadmits hone⟩
  have hlater := hkeeps.afterRuns further
  refine ⟨?_, fun config' report' store'' hplace hrun' => (hlater.of_ends_run hplace hrun').1⟩
  obtain ⟨after, hafter, hcompleted⟩ := hlater
  refine ⟨after, hafter, hcompleted.length.symm.trans hpassed.findings_length, fun k s hs => ?_⟩
  have hk : k < report.findings.length := by
    rw [hcompleted.length]
    exact (List.getElem?_eq_some_iff.mp hs).1
  have hfound := List.getElem?_eq_getElem hk
  obtain ⟨hdistinct, hresources⟩ := hcompleted.sections k s _ hs hfound
  refine ⟨_, hfound, hdistinct, fun e he => ?_⟩
  obtain ⟨r, hr⟩ := exists_completed_of_mem hresources he
  exact hr.exists_standsFor

end

theorem Sample.noDoubles (returnType : TypeSig) : (assembly returnType).NoDoubles := by
  intro s hs t ht
  obtain rfl := List.mem_singleton.mp hs
  simp only [List.mem_cons, List.not_mem_nil, or_false] at ht
  -- each of the two types has one method
  rcases ht with rfl | rfl
  · exact ⟨List.countP_le_length, List.countP_le_length, List.countP_le_length⟩
  · exact ⟨List.countP_le_length, List.countP_le_length, List.countP_le_length⟩

/-- The sample is run again, and so is an assembly that is not stored. -/
theorem complete_afterRuns_sample :
    (∃ after, ((Sample.rewritten .void).afterRuns
        [Sample.config, .ofAssembly ⟨"bin/Lib.dll"⟩]).image? Sample.config.assembly = some after ∧
      after.assembly.sections.length = 1 ∧
      ∀ (k : Nat) (s : Section), after.assembly.sections[k]? = some s →
        ∃ found, Sample.report.findings[k]? = some found ∧ s.TokensDistinct ∧
          ∀ e, .equipped e ∈ found → ∃ t ∈ s.types, e.StandsFor s t ∧
            t.Complete e.precompiled e.runtime e.flagConstructor) ∧
    ∀ (config' : Config) (report' : Report) (store'' : Store),
      config'.assembly.location = Sample.config.assembly.location →
      (run config' : Edit Store Report).Ends ((Sample.rewritten .void).afterRuns
        [Sample.config, .ofAssembly ⟨"bin/Lib.dll"⟩]) (.ok report') store'' →
      report'.findings = Sample.report.findings.map (·.map (·.again)) :=
  complete_afterRuns Sample.ends_run_void rfl (Sample.admits .void) (Sample.noDoubles .void) _

end DualInit
