import DualInit.Proofs.Run.Sections

/-!
# What a run leaves alone

A run that succeeds changes methods of types that its report has an entry for, and adds references
to base constructors; `run_frame` says that it changes nothing else of the assembly it stores, and
what it changes of these types, method by method.
-/

namespace DualInit

section

variable {store store' : Store} {config : Config} {report : Report} {before : Image}

/-- The stored assembly has the sections it had, with their names, resources and references, and
all types in their places.  A type that no entry of the report stands for is as it was; one that
an entry stands for has its old methods where they stood, an initializer under its new name or a
flag constructor with its new body among them, and the new methods behind them. -/
theorem run_frame (hrun : (run config : Edit Store Report).Ends store (.ok report) store')
    (hbefore : store.image? config.assembly = some before)
    (hadmits : before.assembly.Admits report.findings) :
    ∃ after, store'.image? config.assembly = some after ∧
      after.assembly.name = before.assembly.name ∧
      after.assembly.sections.length = before.assembly.sections.length ∧
      ∀ (k : Nat) (s : Section), before.assembly.sections[k]? = some s →
        ∃ found s', report.findings[k]? = some found ∧
          after.assembly.sections[k]? = some s' ∧ s'.TokensDistinct ∧ s.Frame s' ∧
          ∀ t ∈ s.types, ∀ u ∈ s'.types, u.token = t.token → u = t ∨
            ∃ e body, .equipped e ∈ found ∧ e.StandsFor s t ∧ t.ChangedAs e body u := by
  obtain ⟨after, hafter, hpassed⟩ := passed_of_ends_run hrun hbefore hadmits
  refine ⟨after, hafter, hpassed.name, hpassed.length, fun k s hs => ?_⟩
  obtain ⟨found, s', hfound, hs', hsection⟩ := hpassed.sections k s hs
  have hdistinct := hadmits.distinct s (List.mem_of_getElem? hs)
  have hdistinct' := hsection.tokensDistinct hdistinct
  refine ⟨found, s', hfound, hs', hdistinct', hsection.reworked.toFrame, ?_⟩
  intro t ht u hu htoken
  have htfound := Section.typeDef?_of_mem hdistinct ht
  have hufound := Section.typeDef?_of_mem hdistinct' hu
  rw [htoken] at hufound
  rcases hsection.reworked.types t.token t u htfound hufound with
    rfl | ⟨e, body, he, hstands, hrefitted⟩
  · exact Or.inl rfl
  · exact Or.inr ⟨e, body, he, hstands, hrefitted.changes (hdistinct.of_mem ht)⟩

end

/-! ## A sample -/

namespace Sample

/-- A page whose class is called `Page`. -/
def page : Resource :=
  ⟨"Page.xaml", 1, .embedded (Xml.bytes
    "<A xmlns:x=\"http://schemas.microsoft.com/winfx/2006/xaml\" x:Class=\"Page\"/>")⟩

/-- The base type of the page's class; its constructor should return nothing. -/
def viewType (returnType : TypeSig) : TypeDef :=
  ⟨⟨0x02000001⟩, "", "View", TypeFlags.visible, none, none,
    [⟨⟨0x06000001⟩, constructorName, MethodFlags.instanceConstructor, 0,
      .instanceReturning returnType, [], none⟩]⟩

/-- The page's class, with an initializer that was not split. -/
def pageType : TypeDef :=
  ⟨⟨0x02000002⟩, "", "Page", TypeFlags.visible, some ⟨0x02000001⟩, none,
    [⟨⟨0x06000002⟩, precompiledName, 0, 0, .instanceVoid, [], some ⟨.emptyBody, false⟩⟩]⟩

/-- An assembly of one section. -/
def assembly (returnType : TypeSig) : Assembly :=
  ⟨"App", [⟨"App.dll", [page], [viewType returnType, pageType], [], [], none⟩]⟩

def config : Config :=
  .ofAssembly ⟨"bin/App.dll"⟩

/-- A store with the assembly and nothing else. -/
def store (returnType : TypeSig) : Store :=
  (Store.empty []).insert config.assembly (assembly returnType)

/-- The store after a run. -/
def rewritten (returnType : TypeSig) : Store :=
  ((run config : Edit Store Report).run (store returnType)).state

/-- The report of the run. -/
def report : Report :=
  ⟨[[.equipped ⟨"App.dll", "Page", ⟨0x06000003⟩, ⟨0x06000002⟩, ⟨0x06000004⟩, true, true⟩]],
    .notRequested⟩

theorem ends_run_void :
    (run config : Edit Store Report).Ends (store .void) (.ok report) (rewritten .void) :=
  ⟨by decide +kernel, rfl⟩

theorem ends_run_int32 :
    (run config : Edit Store Report).Ends (store .int32) (.ok report) (rewritten .int32) :=
  ⟨by decide +kernel, rfl⟩

theorem admits (returnType : TypeSig) : (assembly returnType).Admits report.findings where
  distinct := by
    intro s hs
    obtain rfl := List.mem_singleton.mp hs
    have htypes : [(⟨0x02000001⟩ : Token), ⟨0x02000002⟩].Nodup := by decide
    have hmethods : [(⟨0x06000001⟩ : Token), ⟨0x06000002⟩].Nodup := by decide
    exact ⟨htypes, hmethods⟩
  room := by
    intro k s found hs hfound
    cases k with
    | zero =>
      obtain rfl := Option.some.inj hs
      obtain rfl := Option.some.inj hfound
      show Rows.greatest [⟨0x06000001⟩, ⟨0x06000002⟩] + 2 < Token.rowLimit
      decide
    | succ k => exact absurd hs (by simp [assembly])

theorem hasOneInitializer (returnType : TypeSig) : (assembly returnType).HasOneInitializer := by
  intro s hs t ht
  obtain rfl := List.mem_singleton.mp hs
  simp only [List.mem_cons, List.not_mem_nil, or_false] at ht
  rcases ht with rfl | rfl
  · exact Nat.zero_le 1
  · exact Nat.le_refl 1

end Sample

theorem run_frame_sample :
    ∃ after, (Sample.rewritten .void).image? Sample.config.assembly = some after ∧
      after.assembly.name = "App" ∧ after.assembly.sections.length = 1 ∧
      ∀ (k : Nat) (s : Section), (Sample.assembly .void).sections[k]? = some s →
        ∃ found s', Sample.report.findings[k]? = some found ∧
          after.assembly.sections[k]? = some s' ∧ s'.TokensDistinct ∧ s.Frame s' ∧
          ∀ t ∈ s.types, ∀ u ∈ s'.types, u.token = t.token → u = t ∨
            ∃ e body, .equipped e ∈ found ∧ e.StandsFor s t ∧ t.ChangedAs e body u :=
  run_frame Sample.ends_run_void rfl (Sample.admits .void)

end DualInit
