import DualInit.Proofs.Page.Symbols
import DualInit.Proofs.Run.Idempotence

/-!
# Symbols of a run

Symbols go through several hands in a run: they are attached to the sections when the assembly is
opened, hidden where bodies are replaced, brought in line with the methods before the assembly is
written, and written in the format that is asked for.  `recorded_of_ends_run` puts these together,
section by section (`Section.RecordedAs`); it asks for nothing but that the run succeeds and has
written the symbols.

From it come two results.  Where tokens are distinct, symbols follow the methods that were there
before (`symbols_of_ends_run`).  A method that was created has symbols exactly if symbols were
stored under its token before it was there (`created_unrecorded_iff`), for such symbols are not
dropped before the token is taken; `exists_run_inheriting` is a run in which that happens.
-/

namespace DualInit

/-- What a run that has written symbols in a format records for a section: `stored` are the symbols
that were stored for it, and `recorded` those that are stored then. -/
structure Section.RecordedAs (format : SymbolFormat) (found : List Finding)
    (stored recorded : Option SymbolTable) (s s' : Section) : Prop where
  /-- No token is lost. -/
  kept : ∀ token ∈ s.methods.map (·.token), token ∈ s'.methods.map (·.token)
  /-- The tokens of new methods are in use. -/
  created : ∀ token ∈ found.flatMap (·.created), token ∈ s'.methods.map (·.token)
  /-- Symbols are hidden, and then brought in line with the methods. -/
  recorded : recorded = stored.map fun table =>
    { (table.hideAll (found.flatMap (·.replaced))).refreshed s'.liveMethods with format }

/-- What is recorded for a method in the place of what was recorded for it before a run: its name is
that of the method now, and its points are as they were, unless the method is the flag constructor
of a type that was equipped. -/
structure MethodSymbols.Succeeds (found : List Finding) (m : MethodDef) (old new : MethodSymbols) :
    Prop where
  name : new.name = m.name
  points : (∀ e, .equipped e ∈ found → e.flagConstructor ≠ m.token) → new.points = old.points
  empty : ∀ e, .equipped e ∈ found → e.flagConstructor = m.token → old.points = [] → new.points = []
  /-- Of the points for a body that was replaced one is left, in the document of the first. -/
  hidden : ∀ e, .equipped e ∈ found → e.flagConstructor = m.token →
    ∀ first others, old.points = first :: others →
      ∃ p, new.points = [p] ∧ p.offset = 0 ∧ p.isHidden = true ∧ p.document = first.document

/-- A table of symbols follows the methods of a section through a run. -/
structure SymbolTable.Succeeds (found : List Finding) (s s' : Section) (table table' : SymbolTable) :
    Prop where
  /-- Nothing is recorded but for methods of the section. -/
  methods : ∀ token symbols, table'.get? token = some symbols → ∃ m ∈ s'.methods, m.token = token
  /-- For a method that was there, something is recorded exactly if something was. -/
  entries : ∀ m ∈ s.methods, ∃ m' ∈ s'.methods, m'.token = m.token ∧
    (table.get? m.token = none → table'.get? m.token = none) ∧
    ∀ old, table.get? m.token = some old →
      ∃ new, table'.get? m.token = some new ∧ old.Succeeds found m' new

/-- The symbols of a body that was replaced succeed those of the body before it. -/
theorem MethodSymbols.succeeds_hide {found : List Finding} {m : MethodDef} {e : EquippedType}
    (old : MethodSymbols) (he : .equipped e ∈ found) (htoken : e.flagConstructor = m.token) :
    old.Succeeds found m { old.hide with name := m.name } where
  name := rfl
  points hnone := absurd htoken (hnone e he)
  empty _ _ _ hold := by
    rw [hide, hold]
    rfl
  hidden _ _ _ first others hold := by
    rw [hide, hold]
    exact ⟨.hidden first.document, rfl, rfl, beq_self_eq_true _, rfl⟩

/-- Under the name of its method a method that kept its body has the symbols that it had. -/
theorem MethodSymbols.succeeds_self {found : List Finding} {m : MethodDef} (old : MethodSymbols)
    (hnone : ∀ e, .equipped e ∈ found → e.flagConstructor ≠ m.token) :
    old.Succeeds found m { old with name := m.name } where
  name := rfl
  points _ := rfl
  empty e he htoken := absurd htoken (hnone e he)
  hidden e he htoken := absurd htoken (hnone e he)

section

variable {s s' : Section} {format : SymbolFormat} {a b : Assembly} {k : Nat}
  {store store' : Store} {config : Config} {report : Report} {before : Image} {path : Path}

/-! ## Stages -/

/-- Sections without symbols get the stored ones. -/
theorem Store.getElem?_attachSymbols {sections : List Section} (tables : List (Option SymbolTable))
    (hs : sections[k]? = some s) (hfree : s.symbols = none) :
    (attachSymbols sections tables)[k]? = some { s with symbols := tables[k]?.join } := by
  have hsame : s = { s with symbols := none } := by rw [← hfree]
  induction sections generalizing tables k with
  | nil => exact absurd hs (by simp)
  | cons first sections ih =>
    cases tables with
    | nil => exact hs.trans (congrArg some hsame)
    | cons table tables =>
      cases k with
      | zero =>
        obtain rfl := Option.some.inj hs
        cases table with
        | none => exact congrArg some hsame
        | some table => rfl
      | succ k =>
        cases table with
        | none => exact ih tables hs
        | some table => exact ih tables hs

/-- The symbols that are stored for a section. -/
theorem Store.symbols?_eq (hi : store.image? path = some before) (k : Nat) :
    store.symbols? path k = before.symbols[k]?.join := by
  rw [symbols?, hi]
  exact Option.bind_id_eq_join

/-- No section of a stored assembly has symbols with it. -/
theorem Image.symbols_eq_none (hs : before.assembly.sections[k]? = some s) : s.symbols = none := by
  have hsections : before.assembly.sections.map Section.withoutSymbols =
      before.assembly.sections := congrArg Assembly.sections before.symbolFree
  have hk := congrArg (·[k]?) hsections
  simp only [List.getElem?_map, hs, Option.map_some, Option.some.injEq] at hk
  rw [← hk]
  rfl

/-- Symbols that have been written were asked for, and so the assembly was opened with them. -/
theorem Config.readSymbols_of_written
    (h : store.outcome config.writerFormat = .written format) :
    config.writerFormat = some format ∧ config.readOptions.readSymbols = true := by
  unfold Config.writerFormat at h ⊢
  cases hsymbols : config.debugSymbols with
  | false =>
    rw [hsymbols] at h
    cases h
  | true =>
    rw [hsymbols, if_pos rfl, Store.outcome] at h
    split at h
    · cases h
      exact ⟨rfl, hsymbols⟩
    · cases h

/-- The symbols of a section as they are written. -/
theorem Image.getElem?_symbols_rewritten {t : Section}
    {bodies : List ((Nat × Token) × List UInt8)} (ht : a.sections[k]? = some t) :
    (before.rewritten (a.prepared (some format)) bodies (.written format)).symbols[k]? =
      some (t.symbols.map fun table => { table.refreshed t.liveMethods with format }) := by
  have htables : (a.prepared (some format)).symbolTables[k]? =
      some (t.symbols.map (·.refreshed t.liveMethods)) := by
    rw [← t.symbols_refreshSymbols]
    simp only [Assembly.prepared, Assembly.refreshSymbols, Assembly.symbolTables,
      List.getElem?_map, ht, Option.map_some]
  simp only [rewritten, List.getElem?_map, htables, Option.map_some, Option.map_map]
  rfl

/-! ## A whole run -/

/-- What a run that has written symbols records for each section. -/
theorem recorded_of_ends_run
    (hrun : (run config : Edit Store Report).Ends store (.ok report) store')
    (hbefore : store.image? config.assembly = some before)
    (hwritten : report.symbols = .written format) :
    ∃ after, store'.image? config.assembly = some after ∧
      after.assembly.sections.length = before.assembly.sections.length ∧
      ∀ (k : Nat) (s : Section), before.assembly.sections[k]? = some s →
        ∃ found s', report.findings[k]? = some found ∧ after.assembly.sections[k]? = some s' ∧
          s.RecordedAs format found (store.symbols? config.assembly k)
            (store'.symbols? config.assembly k) s' := by
  obtain ⟨opened, edited, i, bodies, hread, hequip, hi, -, houtcome, rfl⟩ := ends_run_ok.mp hrun
  obtain rfl := Option.some.inj (hbefore.symm.trans hi)
  rw [hwritten] at houtcome ⊢
  obtain ⟨hformat, hsymbols⟩ := Config.readSymbols_of_written houtcome.symm
  obtain ⟨j, hj, -, hopened⟩ := Store.read_ok.mp hread
  obtain rfl := Option.some.inj (hbefore.symm.trans hj)
  rw [if_pos hsymbols] at hopened
  obtain ⟨-, -, rfl⟩ := Store.withSymbols_ok.mp hopened
  obtain ⟨sections, heach, rfl⟩ := ends_eachSection.mp hequip
  have hlength := length_sections (Store.withoutSymbols_of_read_ok hbefore hread)
  rw [hformat]
  refine ⟨_, Store.image?_putImage_self, ?_, fun k s hs => ?_⟩
  · rw [assembly_rewritten, length_sections
      ((Assembly.withoutSymbols_withoutSymbols _).trans (withoutSymbols_prepared _ _))]
    exact (Edit.length_of_ends_each_ok heach).2.trans hlength
  · have hopened := Store.getElem?_attachSymbols before.symbols hs (Image.symbols_eq_none hs)
    obtain ⟨found, t, hfound, ht, hends⟩ := Edit.getElem?_of_ends_each_ok heach k hopened
    have hfollows := follows_of_ends_equipResources (ends_equipSection.mp hends)
    refine ⟨found, t.withoutSymbols, hfound, ?_, hfollows.kept, hfollows.created, ?_⟩
    · rw [assembly_rewritten, withoutSymbols_prepared, Assembly.withoutSymbols, List.getElem?_map,
        ht]
      rfl
    · rw [Store.symbols?_eq Store.image?_putImage_self, Store.symbols?_eq hbefore,
        Image.getElem?_symbols_rewritten ht, hfollows.symbols, Option.join_some, Option.map_map]
      rfl

/-! ## Methods that were there -/

variable {found : List Finding} {stored recorded : Option SymbolTable} {table table' : SymbolTable}
  {token : Token}

namespace Section.RecordedAs

/-- What is recorded under a token. -/
theorem get? (h : s.RecordedAs format found stored recorded s') (hstored : stored = some table)
    (hrecorded : recorded = some table') :
    table'.format = format ∧ ∀ token, table'.get? token =
      (if token ∈ found.flatMap (·.replaced) then (table.get? token).map (·.hide)
        else table.get? token).bind fun symbols =>
          (SymbolTable.liveName? s'.liveMethods token).map fun name => { symbols with name } := by
  have htable := h.recorded
  rw [hstored, hrecorded, Option.map_some, Option.some.injEq] at htable
  rw [htable]
  refine ⟨rfl, fun token => ?_⟩
  rw [← SymbolTable.get?_hideAll]
  exact SymbolTable.get?_refreshed s'.liveMethods _ token

/-- Nothing is recorded but for methods of the section. -/
theorem exists_method {symbols : MethodSymbols}
    (h : s.RecordedAs format found stored recorded s') (hstored : stored = some table)
    (hrecorded : recorded = some table') (hsymbols : table'.get? token = some symbols) :
    ∃ m ∈ s'.methods, m.token = token := by
  rw [(h.get? hstored hrecorded).2 token] at hsymbols
  obtain ⟨_, -, hname⟩ := Option.bind_eq_some_iff.mp hsymbols
  by_contra hnone
  have hlive : SymbolTable.liveName? s'.liveMethods token = none := by
    rw [SymbolTable.liveName?_eq_none, map_fst_liveMethods]
    exact fun hmem => hnone (List.mem_map.mp hmem)
  rw [hlive] at hname
  cases hname

end Section.RecordedAs

namespace Section.Passed

variable {external : Resolver} {m : MethodDef}

/-- The initializers that were found for run time have the name of these. -/
theorem exists_runtime {e : EquippedType} (h : s.Passed external found s')
    (he : .equipped e ∈ found) : ∃ m ∈ s'.methods, m.token = e.runtime ∧ m.name = runtimeName := by
  obtain ⟨t, t', -, hsteps, hafter⟩ := h
  obtain ⟨_, rfl⟩ := Section.exists_symbols hafter
  exact hsteps.exists_runtime he

/-- Of the methods that were there, those that had their bodies replaced are the flag constructors
of the types that were equipped. -/
theorem mem_replaced_iff (h : s.Passed external found s') (hs : s.TokensDistinct)
    (hm : m ∈ s.methods) :
    m.token ∈ found.flatMap (·.replaced) ↔
      ∃ e, .equipped e ∈ found ∧ e.flagConstructor = m.token := by
  obtain ⟨t, t', hbefore, hsteps, -⟩ := h
  obtain ⟨_, rfl⟩ := Section.exists_symbols hbefore
  constructor
  · intro hmem
    obtain ⟨finding, hfinding, hreplaced⟩ := List.mem_flatMap.mp hmem
    cases finding with
    | skipped skip => exact absurd hreplaced List.not_mem_nil
    | equipped e =>
      rw [Finding.replaced] at hreplaced
      split at hreplaced
      · exact absurd hreplaced List.not_mem_nil
      · exact ⟨e, hfinding, (List.mem_singleton.mp hreplaced).symm⟩
  · rintro ⟨e, he, htoken⟩
    refine List.mem_flatMap.mpr ⟨_, he, ?_⟩
    have hkept : e.constructorCreated = false := by
      refine Bool.eq_false_iff.mpr fun hcreated => ?_
      have hmem : m.token ∈ found.flatMap (·.created) := by
        refine List.mem_flatMap.mpr ⟨_, he, List.mem_append_right _ ?_⟩
        rw [if_pos hcreated, htoken]
        exact List.mem_singleton_self _
      exact hsteps.created_notMem (tokensDistinct_congr hs hbefore) hmem (List.mem_map_of_mem hm)
    rw [Finding.replaced, hkept, htoken]
    exact List.mem_singleton_self _

end Section.Passed

/-- **Symbols follow the methods.**  A run that has written symbols leaves symbols, in the format it
says, for the sections that had them.  They are for methods of the section only, and for a method
that was there before the run there are symbols exactly if there were: under the name that the
method has now, which for the initializers that were found for run time is the name of these, and
with the points that there were.  Only for the flag constructor of a type that was equipped the points
give way to a hidden one at the start of the body, in the document of the first of them; where there
were none, there are none. -/
theorem symbols_of_ends_run
    (hrun : (run config : Edit Store Report).Ends store (.ok report) store')
    (hbefore : store.image? config.assembly = some before)
    (hwritten : report.symbols = .written format)
    (hadmits : before.assembly.Admits report.findings) :
    ∃ after, store'.image? config.assembly = some after ∧
      after.assembly.sections.length = before.assembly.sections.length ∧
      ∀ (k : Nat) (s : Section), before.assembly.sections[k]? = some s →
        ∃ found s', report.findings[k]? = some found ∧ after.assembly.sections[k]? = some s' ∧
          s'.TokensDistinct ∧
          (∀ e, .equipped e ∈ found →
            ∃ m ∈ s'.methods, m.token = e.runtime ∧ m.name = runtimeName) ∧
          (store'.symbols? config.assembly k).isSome = (store.symbols? config.assembly k).isSome ∧
          ∀ table table', store.symbols? config.assembly k = some table →
            store'.symbols? config.assembly k = some table' →
            table'.format = format ∧ table.Succeeds found s s' table' := by
  obtain ⟨after, hafter, hlength, hrecorded⟩ := recorded_of_ends_run hrun hbefore hwritten
  obtain ⟨after', hafter', hpassed⟩ := passed_of_ends_run hrun hbefore hadmits
  obtain rfl := Option.some.inj (hafter.symm.trans hafter')
  refine ⟨after, hafter, hlength, fun k s hs => ?_⟩
  obtain ⟨found, s', hfound, hs', h⟩ := hrecorded k s hs
  obtain ⟨found', s'', hfound', hs'', hsection⟩ := hpassed.sections k s hs
  obtain rfl := Option.some.inj (hfound.symm.trans hfound')
  obtain rfl := Option.some.inj (hs'.symm.trans hs'')
  have hdistinct := hadmits.distinct s (List.mem_of_getElem? hs)
  have hdistinct' := hsection.tokensDistinct hdistinct
  refine ⟨found, s', hfound, hs', hdistinct', fun e he => hsection.exists_runtime he, ?_, ?_⟩
  · rw [h.recorded, Option.isSome_map]
  · intro table table' hstored hrecorded
    obtain ⟨hformat, hget⟩ := h.get? hstored hrecorded
    refine ⟨hformat, fun token symbols => h.exists_method hstored hrecorded, fun m hm => ?_⟩
    obtain ⟨m', hm', htoken⟩ := List.mem_map.mp (h.kept m.token (List.mem_map_of_mem hm))
    have hlive := Section.liveName?_of_mem hdistinct'.methods hm'
    rw [htoken] at hlive
    refine ⟨m', hm', htoken, fun hnone => ?_, fun old hold => ?_⟩
    · rw [hget, hnone]
      split <;> rfl
    · have hreplaced := hsection.mem_replaced_iff hdistinct hm
      rw [hget, hlive, hold]
      by_cases hequipped : ∃ e, .equipped e ∈ found ∧ e.flagConstructor = m.token
      · rw [if_pos (hreplaced.mpr hequipped)]
        obtain ⟨e, he, heq⟩ := hequipped
        exact ⟨_, rfl, old.succeeds_hide he (heq.trans htoken.symm)⟩
      · rw [if_neg fun hmem => hequipped (hreplaced.mp hmem)]
        exact ⟨_, rfl, old.succeeds_self fun e he heq => hequipped ⟨e, he, heq.trans htoken⟩⟩

/-! ## Methods that were created -/

/-- **New methods inherit what is left over.**  A method that a run has created has no symbols
exactly if none were stored under its token before: symbols of a method that is gone stay until the
token is taken by a new one, and are then taken for those of the new one. -/
theorem created_unrecorded_iff
    (hrun : (run config : Edit Store Report).Ends store (.ok report) store')
    (hbefore : store.image? config.assembly = some before)
    (hwritten : report.symbols = .written format) :
    ∀ (k : Nat) (s : Section), before.assembly.sections[k]? = some s →
      ∃ found, report.findings[k]? = some found ∧ ∀ token ∈ found.flatMap (·.created),
        ((∀ table', store'.symbols? config.assembly k = some table' → table'.get? token = none) ↔
          ∀ table, store.symbols? config.assembly k = some table → table.get? token = none) := by
  obtain ⟨_, -, -, hrecorded⟩ := recorded_of_ends_run hrun hbefore hwritten
  intro k s hs
  obtain ⟨found, s', hfound, -, h⟩ := hrecorded k s hs
  refine ⟨found, hfound, fun token htoken => ?_⟩
  have hlive : SymbolTable.liveName? s'.liveMethods token ≠ none := by
    rw [ne_eq, SymbolTable.liveName?_eq_none, Section.map_fst_liveMethods, not_not]
    exact h.created token htoken
  obtain ⟨name, hname⟩ := Option.ne_none_iff_exists'.mp hlive
  constructor
  · intro hnone table hstored
    have hsome := h.recorded
    rw [hstored, Option.map_some] at hsome
    have hget := (h.get? hstored hsome).2 token
    rw [hnone _ hsome, hname] at hget
    cases hold : table.get? token with
    | none => rfl
    | some old =>
      rw [hold] at hget
      split at hget <;> cases hget
  · intro hnone table' hrecorded
    have hsome : ∃ table, store.symbols? config.assembly k = some table := by
      have hmap := h.recorded
      rw [hrecorded] at hmap
      obtain ⟨table, htable, -⟩ := Option.map_eq_some_iff.mp hmap.symm
      exact ⟨table, htable⟩
    obtain ⟨table, hstored⟩ := hsome
    rw [(h.get? hstored hrecorded).2 token, hnone table hstored]
    split <;> rfl

end

/-! ## A sample -/

namespace Sample

/-- A place in the page's source. -/
def point : SequencePoint :=
  ⟨0, "Page.cs", 7, 9, 7, 31⟩

/-- The sample with symbols of methods. -/
def storeRecording (symbols : List (Token × MethodSymbols)) : Store :=
  (Store.empty [.mdb]).insert config.assembly
    ⟨"App", [⟨"App.dll", [page], [viewType .void, pageType], [], [],
      some ⟨.mdb, .ofList symbols⟩⟩]⟩

/-- Symbols of the initializer and of a method that is gone. -/
def symbols (gone : Token) : List (Token × MethodSymbols) :=
  [(⟨0x06000002⟩, ⟨precompiledName, [point]⟩), (gone, ⟨"Gone", [point]⟩)]

/-- The report of a run that has written symbols. -/
def reportWritten : Report :=
  ⟨report.findings, .written .mdb⟩

/-- The store after a run with symbols. -/
def rewrittenRecording (symbols : List (Token × MethodSymbols)) : Store :=
  ((run configWithSymbols : Edit Store Report).run (storeRecording symbols)).state

theorem ends_run_symbols :
    (run configWithSymbols : Edit Store Report).Ends (storeRecording (symbols ⟨0x06000009⟩))
      (.ok reportWritten) (rewrittenRecording (symbols ⟨0x06000009⟩)) :=
  ⟨by decide +kernel, rfl⟩

theorem ends_run_inheriting :
    (run configWithSymbols : Edit Store Report).Ends (storeRecording (symbols ⟨0x06000003⟩))
      (.ok reportWritten) (rewrittenRecording (symbols ⟨0x06000003⟩)) :=
  ⟨by decide +kernel, rfl⟩

/-- The page's class with a flag constructor, which the run gives another body. -/
def fittedType : TypeDef :=
  { pageType with
    methods := pageType.methods ++ [⟨⟨0x06000003⟩, constructorName, MethodFlags.instanceConstructor, 0,
      .instanceWithParams [.bool], [], some ⟨.emptyBody, false⟩⟩] }

/-- A section with that class. -/
def fitted : Section :=
  ⟨"App.dll", [page], [viewType .void, fittedType], [], [], none⟩

/-- Symbols of the initializer, of the flag constructor and of a method that is gone. -/
def symbolsFitted : SymbolTable :=
  ⟨.mdb, .ofList [(⟨0x06000002⟩, ⟨precompiledName, [point]⟩),
    (⟨0x06000003⟩, ⟨constructorName, [{ point with offset := 4 }, point]⟩),
    (⟨0x06000009⟩, ⟨"Gone", [point]⟩)]⟩

/-- A store with the section and its symbols. -/
def storeFitted : Store :=
  (Store.empty [.mdb]).insert config.assembly ⟨"App", [{ fitted with symbols := some symbolsFitted }]⟩

/-- The store after a run. -/
def rewrittenFitted : Store :=
  ((run configWithSymbols : Edit Store Report).run storeFitted).state

/-- What is found in that run: the flag constructor was there. -/
def equippedFitted : EquippedType :=
  ⟨"App.dll", "Page", ⟨0x06000004⟩, ⟨0x06000002⟩, ⟨0x06000003⟩, true, false⟩

def reportFitted : Report :=
  ⟨[[.equipped equippedFitted]], .written .mdb⟩

theorem ends_run_fitted :
    (run configWithSymbols : Edit Store Report).Ends storeFitted (.ok reportFitted)
      rewrittenFitted :=
  ⟨by decide +kernel, rfl⟩

theorem admits_fitted : (⟨"App", [fitted]⟩ : Assembly).Admits reportFitted.findings where
  distinct := by
    intro s hs
    obtain rfl := List.mem_singleton.mp hs
    have htypes : [(⟨0x02000001⟩ : Token), ⟨0x02000002⟩].Nodup := by decide
    have hmethods : [(⟨0x06000001⟩ : Token), ⟨0x06000002⟩, ⟨0x06000003⟩].Nodup := by decide
    exact ⟨htypes, hmethods⟩
  room := by
    intro k s found hs hfound
    cases k with
    | zero =>
      obtain rfl := Option.some.inj hs
      obtain rfl := Option.some.inj hfound
      show Rows.greatest [⟨0x06000001⟩, ⟨0x06000002⟩, ⟨0x06000003⟩] + 1 < Token.rowLimit
      decide
    | succ k => exact absurd hs (by simp)

end Sample

theorem symbols_of_ends_run_sample :
    (run Sample.configWithSymbols : Edit Store Report).Ends Sample.storeFitted
        (.ok Sample.reportFitted) Sample.rewrittenFitted ∧
      (⟨"App", [Sample.fitted]⟩ : Assembly).Admits Sample.reportFitted.findings ∧
      ∃ after s' table', Sample.rewrittenFitted.image? Sample.configWithSymbols.assembly = some after ∧
        after.assembly.sections[0]? = some s' ∧
        Sample.rewrittenFitted.symbols? Sample.configWithSymbols.assembly 0 = some table' ∧
        table'.format = .mdb ∧
        Sample.symbolsFitted.Succeeds [.equipped Sample.equippedFitted] Sample.fitted s' table' ∧
        ∃ new p, table'.get? Sample.equippedFitted.flagConstructor = some new ∧ new.points = [p] ∧
          p.offset = 0 ∧ p.isHidden = true ∧ p.document = "Page.cs" := by
  obtain ⟨after, hafter, -, hsections⟩ :=
    symbols_of_ends_run Sample.ends_run_fitted rfl rfl Sample.admits_fitted
  obtain ⟨found, s', hfound, hs', -, -, hsome, hsymbols⟩ := hsections 0 Sample.fitted rfl
  obtain rfl := Option.some.inj hfound
  obtain ⟨table', htable'⟩ := Option.isSome_iff_exists.mp (hsome.trans rfl)
  obtain ⟨hformat, hsucceeds⟩ := hsymbols Sample.symbolsFitted table' rfl htable'
  refine ⟨Sample.ends_run_fitted, Sample.admits_fitted, after, s', table', hafter, hs', htable', hformat,
    hsucceeds, ?_⟩
  have hconstructor := hsucceeds.entries (Sample.fittedType.methods[1]) (by decide)
  obtain ⟨m', -, htoken, -, hentry⟩ := hconstructor
  obtain ⟨new, hnew, hpoints⟩ := hentry _ rfl
  obtain ⟨p, hp⟩ := hpoints.hidden Sample.equippedFitted (List.mem_singleton_self _) htoken.symm _ _ rfl
  exact ⟨new, p, hnew, hp⟩

theorem created_unrecorded_iff_sample :
    ∃ found, Sample.reportWritten.findings[0]? = some found ∧
      ∀ token ∈ found.flatMap (·.created),
        ((∀ table', (Sample.rewrittenRecording (Sample.symbols ⟨0x06000009⟩)).symbols?
            Sample.configWithSymbols.assembly 0 = some table' → table'.get? token = none) ↔
          ∀ table, (Sample.storeRecording (Sample.symbols ⟨0x06000009⟩)).symbols?
            Sample.configWithSymbols.assembly 0 = some table → table.get? token = none) :=
  created_unrecorded_iff Sample.ends_run_symbols rfl rfl 0 _ rfl

/-- The token that the first new method gets is that of a method that is gone, whose symbols are
still stored. -/
theorem exists_run_inheriting :
    (run Sample.configWithSymbols : Edit Store Report).Ends
        (Sample.storeRecording (Sample.symbols ⟨0x06000003⟩)) (.ok Sample.reportWritten)
        (Sample.rewrittenRecording (Sample.symbols ⟨0x06000003⟩)) ∧
      (⟨0x06000003⟩ : Token) ∈ (Sample.reportWritten.findings.flatten).flatMap (·.created) ∧
      ((Sample.rewrittenRecording (Sample.symbols ⟨0x06000003⟩)).symbols?
        Sample.configWithSymbols.assembly 0).bind (·.get? ⟨0x06000003⟩) =
          some ⟨precompiledName, [Sample.point]⟩ :=
  ⟨Sample.ends_run_inheriting, by decide, by decide +kernel⟩

end DualInit
