import DualInit.Proofs.Page.Settled
import DualInit.Proofs.Run.Stages
import DualInit.Proofs.Storage.Bodies
import DualInit.Proofs.Storage.Symbols
import DualInit.Proofs.Symbol.Table

/-!
# Runs, section by section

A run opens a stored assembly, makes a pass over the resources of each section (`Assembly.Pass`)
and stores the result.  `Image.Passed` says so of the image that was stored and the one that has
taken its place; `passed_of_ends_run` says it of every run that succeeds on an assembly that
`Admits` what the run has found: tokens tell its types and methods apart, and there are numbers for
the new methods.
-/

namespace DualInit

/-- Tokens tell the types and the methods of every section apart, and each section has numbers left
for the methods that were added to it. -/
structure Assembly.Admits (findings : List (List Finding)) (a : Assembly) : Prop where
  distinct : ∀ s ∈ a.sections, s.TokensDistinct
  room : ∀ (k : Nat) (s : Section) (found : List Finding), a.sections[k]? = some s →
    findings[k]? = some found → s.HasRoom (additions found)

/-- No type of the assembly has two initializers of the name that a page comes with. -/
def Assembly.HasOneInitializer (a : Assembly) : Prop :=
  ∀ s ∈ a.sections, ∀ t ∈ s.types, t.HasOneInitializer

/-- A pass over the resources of every section of an assembly leaves another one. -/
structure Assembly.Pass (external : Resolver) (findings : List (List Finding)) (a b : Assembly) :
    Prop where
  name : b.name = a.name
  length : b.sections.length = a.sections.length
  findings_length : findings.length = a.sections.length
  sections : ∀ (k : Nat) (s : Section), a.sections[k]? = some s →
    ∃ found s', findings[k]? = some found ∧ b.sections[k]? = some s' ∧
      ResourceSteps external s s.resources found s'

/-- A pass over the resources of one section leaves another one, but for symbols. -/
def Section.Passed (external : Resolver) (findings : List Finding) (s s' : Section) : Prop :=
  ∃ t t', t.withoutSymbols = s.withoutSymbols ∧
    ResourceSteps external t t.resources findings t' ∧ s'.withoutSymbols = t'.withoutSymbols

/-- A run has put one image in the place of another. -/
structure Image.Passed (external : Resolver) (findings : List (List Finding)) (i j : Image) :
    Prop where
  name : j.assembly.name = i.assembly.name
  length : j.assembly.sections.length = i.assembly.sections.length
  findings_length : findings.length = i.assembly.sections.length
  sections : ∀ (k : Nat) (s : Section), i.assembly.sections[k]? = some s →
    ∃ found s', findings[k]? = some found ∧ j.assembly.sections[k]? = some s' ∧
      s.Passed external found s'
  bodies : Image.encodeBodies j.assembly = .ok j.bodies

variable {external : Resolver} {found : List Finding} {s s' t : Section}

/-! ## Sections -/

namespace Section

theorem HasRoom.congr {count : Nat} (h : s.HasRoom count)
    (hsymbols : t.withoutSymbols = s.withoutSymbols) : t.HasRoom count := by
  obtain ⟨symbols, rfl⟩ := Section.exists_symbols hsymbols
  exact h

/-- Symbols do not say how a section was reworked. -/
theorem Reworked.congr {t' : Section} (h : t.Reworked found t')
    (hbefore : t.withoutSymbols = s.withoutSymbols)
    (hafter : s'.withoutSymbols = t'.withoutSymbols) : s.Reworked found s' := by
  obtain ⟨symbols, rfl⟩ := Section.exists_symbols hbefore
  obtain ⟨symbols', rfl⟩ := Section.exists_symbols hafter
  obtain ⟨refs, hrefs, hbase⟩ := h.memberRefs
  have hbase' : ∀ r ∈ refs, BaseReference s r := fun r hr =>
    ⟨(hbase r hr).name, (hbase r hr).hasThis, (hbase r hr).params, (hbase r hr).parent⟩
  refine ⟨⟨h.name, h.resources, h.typeRefs, h.shells, refs, hrefs, hbase'⟩, ?_⟩
  intro token t u ht hu
  rcases h.types token t u ht hu with rfl | ⟨e, body, he, hstands, hrefitted⟩
  · exact Or.inl rfl
  · obtain ⟨className, hfind, htypeName⟩ := hstands.typeName
    have htypes : s.types = ({ s with symbols } : Section).types := rfl
    have houtline : s.outline = ({ s with symbols } : Section).outline := rfl
    rw [← findType_of_types htypes] at hfind
    rw [← typeName_congr houtline] at htypeName
    exact Or.inr ⟨e, body, he, ⟨hstands.sectionName, className, hfind, htypeName⟩, hrefitted⟩

namespace Passed

theorem reworked (h : s.Passed external found s') : s.Reworked found s' := by
  obtain ⟨t, t', hbefore, hsteps, hafter⟩ := h
  exact hsteps.reworked.congr hbefore hafter

theorem tokensDistinct (h : s.Passed external found s') (hs : s.TokensDistinct) :
    s'.TokensDistinct := by
  obtain ⟨t, t', hbefore, hsteps, hafter⟩ := h
  exact tokensDistinct_congr (hsteps.tokensDistinct (tokensDistinct_congr hs hbefore)) hafter

/-- In a section that was passed over every resource is settled. -/
theorem settled (h : s.Passed external found s') (hone : ∀ t ∈ s.types, t.HasOneInitializer) :
    List.Forall₂ (Settled external s') s'.resources found := by
  have hresources := h.reworked.resources
  obtain ⟨t, t', hbefore, hsteps, hafter⟩ := h
  obtain ⟨_, rfl⟩ := Section.exists_symbols hbefore
  rw [hresources]
  exact (hsteps.settled hone).imp fun _ _ h => h.congr hafter fun _ => rfl

end Passed
end Section

/-! ## Assemblies -/

theorem withoutSymbols_prepared (a : Assembly) (format : Option SymbolFormat) :
    (a.prepared format).withoutSymbols = a.withoutSymbols := by
  cases format with
  | none => rfl
  | some format =>
    have hsection : Section.withoutSymbols ∘ (fun s : Section => s.refreshSymbols.2) =
        Section.withoutSymbols := funext Section.withoutSymbols_refreshSymbols
    rw [Assembly.prepared, Assembly.refreshSymbols, Assembly.withoutSymbols,
      Assembly.withoutSymbols, List.map_map, hsection]

@[simp] theorem assembly_rewritten (i : Image) (a : Assembly)
    (bodies : List ((Nat × Token) × List UInt8)) (outcome : SymbolOutcome) :
    (i.rewritten a bodies outcome).assembly = a.withoutSymbols := by
  cases outcome <;> rfl

@[simp] theorem bodies_rewritten (i : Image) (a : Assembly)
    (bodies : List ((Nat × Token) × List UInt8)) (outcome : SymbolOutcome) :
    (i.rewritten a bodies outcome).bodies = bodies := by
  cases outcome <;> rfl

/-- Where sections agree but for symbols, each of them has a counterpart. -/
theorem exists_section {a b : Assembly} {k : Nat} (h : a.withoutSymbols = b.withoutSymbols)
    (hs : b.sections[k]? = some s) :
    ∃ t, a.sections[k]? = some t ∧ t.withoutSymbols = s.withoutSymbols := by
  have hsections : a.sections.map Section.withoutSymbols = b.sections.map Section.withoutSymbols :=
    congrArg Assembly.sections h
  have hk := congrArg (·[k]?) hsections
  simp only [List.getElem?_map, hs, Option.map_some] at hk
  exact Option.map_eq_some_iff.mp hk

theorem length_sections {a b : Assembly} (h : a.withoutSymbols = b.withoutSymbols) :
    a.sections.length = b.sections.length := by
  have hsections : a.sections.map Section.withoutSymbols = b.sections.map Section.withoutSymbols :=
    congrArg Assembly.sections h
  have hlength := congrArg List.length hsections
  rwa [List.length_map, List.length_map] at hlength

theorem ends_equipSection {r : Except Error (List Finding)} :
    (equipSection external).Ends s r s' ↔ (equipResources external s.resources).Ends s r s' := by
  rw [equipSection, Edit.ends_current_bind, Edit.ends_tell_bind]

variable {a b : Assembly} {findings : List (List Finding)}

theorem Assembly.Admits.congr (h : a.Admits findings) (hsymbols : b.withoutSymbols = a.withoutSymbols) :
    b.Admits findings where
  distinct := by
    intro t ht
    obtain ⟨k, ht⟩ := List.getElem?_of_mem ht
    obtain ⟨s, hs, hsymbols⟩ := exists_section hsymbols.symm ht
    exact tokensDistinct_congr (h.distinct s (List.mem_of_getElem? hs)) hsymbols.symm
  room := by
    intro k t found ht hfound
    obtain ⟨s, hs, hsymbols⟩ := exists_section hsymbols.symm ht
    exact (h.room k s found hs hfound).congr hsymbols.symm

/-- Equipping the types of an assembly is a pass over its sections. -/
theorem pass_of_ends (hadmits : a.Admits findings)
    (h : (equipAssembly external).Ends a (.ok findings) b) : a.Pass external findings b := by
  obtain ⟨sections, heach, rfl⟩ := ends_eachSection.mp h
  obtain ⟨hfindings, hsections⟩ := Edit.length_of_ends_each_ok heach
  refine ⟨rfl, hsections, hfindings, fun k s hs => ?_⟩
  obtain ⟨found, s', hfound, hs', hends⟩ := Edit.getElem?_of_ends_each_ok heach k hs
  exact ⟨found, s', hfound, hs', resourceSteps_of_ends
    (hadmits.distinct s (List.mem_of_getElem? hs)) (hadmits.room k s found hs hfound)
    (ends_equipSection.mp hends)⟩

variable {store store' : Store} {config : Config} {report : Report} {before : Image}

/-- A run that succeeds has made a pass over what it has opened and has stored what was left. -/
theorem pass_of_ends_run
    (hrun : (run config : Edit Store Report).Ends store (.ok report) store')
    (hbefore : store.image? config.assembly = some before)
    (hadmits : before.assembly.Admits report.findings) :
    ∃ opened edited bodies, (store.read config.assembly config.readOptions).1 = .ok opened ∧
      opened.Pass (Codec.resolver store config.assembly config.searchDirectories)
        report.findings edited ∧
      Image.encodeBodies (edited.prepared config.writerFormat) = .ok bodies ∧
      report.symbols = store.outcome config.writerFormat ∧
      store' = store.putImage config.assembly
        (before.rewritten (edited.prepared config.writerFormat) bodies report.symbols) := by
  obtain ⟨opened, edited, i, bodies, hread, hequip, hi, hbodies, hsymbols, hstore⟩ :=
    ends_run_ok.mp hrun
  obtain rfl := Option.some.inj (hbefore.symm.trans hi)
  have hopened := hadmits.congr (Store.withoutSymbols_of_read_ok hbefore hread)
  exact ⟨opened, edited, bodies, hread, pass_of_ends hopened hequip, hbodies, hsymbols, hstore⟩

/-- A pass over an opened assembly puts an image in the place of the stored one. -/
theorem Assembly.Pass.passed {format : Option SymbolFormat} {outcome : SymbolOutcome}
    {bodies : List ((Nat × Token) × List UInt8)} (h : a.Pass external findings b)
    (hopened : a.withoutSymbols = before.assembly.withoutSymbols)
    (hbodies : Image.encodeBodies (b.prepared format) = .ok bodies) :
    before.Passed external findings (before.rewritten (b.prepared format) bodies outcome) := by
  have hafter : (before.rewritten (b.prepared format) bodies outcome).assembly = b.withoutSymbols :=
    (assembly_rewritten ..).trans (withoutSymbols_prepared b format)
  have hname : a.withoutSymbols.name = before.assembly.withoutSymbols.name := by rw [hopened]
  have hlength := length_sections hopened
  refine ⟨?_, ?_, h.findings_length.trans hlength, ?_, ?_⟩
  · rw [hafter]
    exact h.name.trans hname
  · rw [hafter, Assembly.withoutSymbols, List.length_map, h.length, hlength]
  · intro k s hs
    obtain ⟨t, ht, hsymbols⟩ := exists_section hopened hs
    obtain ⟨found, t', hfound, ht', hsteps⟩ := h.sections k t ht
    refine ⟨found, t'.withoutSymbols, hfound, ?_, t, t', hsymbols, hsteps, rfl⟩
    rw [hafter, Assembly.withoutSymbols, List.getElem?_map, ht']
    rfl
  · rw [bodies_rewritten, ← hbodies]
    refine Image.encodeBodies_congr ?_
    rw [hafter, withoutSymbols_prepared, Assembly.withoutSymbols_withoutSymbols]

/-- What a run that succeeds has found in each section and made of it. -/
theorem passed_of_ends_run
    (hrun : (run config : Edit Store Report).Ends store (.ok report) store')
    (hbefore : store.image? config.assembly = some before)
    (hadmits : before.assembly.Admits report.findings) :
    ∃ after, store'.image? config.assembly = some after ∧
      before.Passed (Codec.resolver store config.assembly config.searchDirectories)
        report.findings after := by
  obtain ⟨opened, edited, bodies, hread, hpass, hbodies, -, rfl⟩ :=
    pass_of_ends_run hrun hbefore hadmits
  exact ⟨_, Store.image?_putImage_self,
    hpass.passed (Store.withoutSymbols_of_read_ok hbefore hread) hbodies⟩

end DualInit
