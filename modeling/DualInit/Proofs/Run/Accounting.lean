import DualInit.Proofs.Page.Accounts
import DualInit.Proofs.Page.Blindness
import DualInit.Proofs.Run.Frame

/-!
# Every resource is accounted for

The report of a run has one finding for each resource, in the order of sections and resources, and
what was found is decided by the assembly that was stored before: `Assembly.accounts` reads it off
that assembly, and the counts and lists of the report are those of these accounts (`run_accounts`).
So what a pass has done for one resource never changes what becomes of another one.
-/

namespace DualInit

/-! ## Reading accounts -/

namespace Account

/-- The resource that is passed over. -/
def skip? : Account → Option Skip
  | skipped skip => some skip
  | equipped _ _ => none

/-- The class that gets equipped, with its section. -/
def equipped? : Account → Option (String × String)
  | skipped _ => none
  | equipped sectionName typeName => some (sectionName, typeName)

/-- Whether the resource names a class. -/
def namesClass : Account → Bool
  | skipped skip => skip.className.isSome
  | equipped _ _ => true

end Account

/-- All resources, in the order of the sections. -/
def Assembly.resources (a : Assembly) : List Resource :=
  a.sections.flatMap (·.resources)

/-- What becomes of each resource of each section. -/
def Assembly.accounts (a : Assembly) : List (List Account) :=
  a.sections.map fun s => s.resources.map s.account

section

variable {external : Resolver} {a b : Assembly} {s : Section} {r : Resource}

theorem skip?_account (f : Finding) : f.account.skip? = f.skip? := by
  cases f <;> rfl

theorem equipped?_account (f : Finding) :
    f.account.equipped? = f.equipped?.map fun e => (e.sectionName, e.typeName) := by
  cases f <;> rfl

theorem namesClass_account (f : Finding) : f.account.namesClass = f.namesClass := by
  cases f <;> rfl

/-- A resource is looked up exactly if it names a class. -/
theorem Section.namesClass_account (s : Section) (r : Resource) :
    (s.account r).namesClass = (classify r).isSome := by
  unfold Section.account
  cases classify r with
  | none => rfl
  | some className =>
    dsimp only
    split
    · rfl
    · split <;> rfl

theorem Assembly.length_accounts (a : Assembly) :
    a.accounts.flatten.length = a.resources.length := by
  rw [accounts, resources, ← List.flatMap_def, List.length_flatMap, List.length_flatMap]
  simp only [List.length_map]

theorem Assembly.countP_accounts (a : Assembly) :
    a.accounts.flatten.countP (·.namesClass) =
      a.resources.countP fun r => (classify r).isSome := by
  have hcount : ∀ s : Section, (s.resources.map s.account).countP (·.namesClass) =
      s.resources.countP fun r => (classify r).isSome := by
    intro s
    rw [List.countP_map, Function.comp_def]
    simp only [Section.namesClass_account]
  rw [accounts, resources, ← List.flatMap_def, List.countP_flatMap, List.countP_flatMap]
  simp only [Function.comp_def, hcount]

/-! ## Reports -/

/-- Every resource that was looked at is on one of the two lists. -/
theorem Report.length_skipped_add_length_equipped (report : Report) :
    report.skipped.length + report.equipped.length = report.resourcesSeen := by
  rw [skipped, equipped, resourcesSeen]
  induction report.allFindings with
  | nil => rfl
  | cons finding findings ih =>
    rw [List.filterMap_cons, List.filterMap_cons, List.length_cons, ← ih]
    cases finding with
    | skipped skip => exact Nat.add_right_comm ..
    | equipped e => rfl

/-- What was found for a resource has an entry on the list it belongs to. -/
theorem Report.exists_entry {report : Report} {finding : Finding}
    (h : finding ∈ report.allFindings) :
    (∃ skip ∈ report.skipped, finding.account = .skipped skip) ∨
      ∃ e ∈ report.equipped, finding.account = .equipped e.sectionName e.typeName := by
  cases finding with
  | skipped skip => exact .inl ⟨skip, List.mem_filterMap.mpr ⟨_, h, rfl⟩, rfl⟩
  | equipped e => exact .inr ⟨e, List.mem_filterMap.mpr ⟨_, h, rfl⟩, rfl⟩

/-- Findings that are accounted for section by section are so in one list. -/
theorem Report.allFindings_account {report : Report}
    (h : report.findings.map (·.map Finding.account) = a.accounts) :
    report.allFindings.map Finding.account = a.accounts.flatten := by
  rw [allFindings, List.map_flatten, h]

/-! ## Runs -/

/-- What becomes of the resources of an assembly is what the assembly says before. -/
theorem accounts_of_ends_equipAssembly {findings : List (List Finding)}
    (hs : ∀ s ∈ a.sections, s.NumbersTypes)
    (h : (equipAssembly external).Ends a (.ok findings) b) :
    findings.map (·.map Finding.account) = a.accounts := by
  obtain ⟨sections, heach, -⟩ := ends_eachSection.mp h
  refine Edit.map_of_ends_each_ok (fun s hmem found s' hends => ?_) heach
  exact accounts_of_ends_equipResources (hs s hmem) (ends_equipSection.mp hends)

variable {config : Config} {store store' : Store} {report : Report} {before : Image}

/-- Every resource is accounted for, by the assembly as it was stored: it has an entry on the list that
its account says, and there are no more entries than resources.  Types have to have tokens of their own
in the table of types; tokens of methods do not matter. -/
theorem run_accounts (hrun : (run config : Edit Store Report).Ends store (.ok report) store')
    (hbefore : store.image? config.assembly = some before)
    (hnumbers : ∀ s ∈ before.assembly.sections, s.NumbersTypes) :
    report.findings.map (·.map Finding.account) = before.assembly.accounts ∧
      report.resourcesSeen = before.assembly.resources.length ∧
      report.skipped.length + report.equipped.length = before.assembly.resources.length ∧
      (∀ s ∈ before.assembly.sections, ∀ r ∈ s.resources,
        (∃ skip ∈ report.skipped, s.account r = .skipped skip) ∨
          ∃ e ∈ report.equipped, s.account r = .equipped e.sectionName e.typeName) ∧
      report.typeLookups = before.assembly.resources.countP (fun r => (classify r).isSome) ∧
      report.skipped = before.assembly.accounts.flatten.filterMap (·.skip?) ∧
      report.equipped.map (fun e => (e.sectionName, e.typeName)) =
        before.assembly.accounts.flatten.filterMap (·.equipped?) := by
  obtain ⟨opened, edited, i, bodies, hread, hequip, hi, -, -, -⟩ := ends_run_ok.mp hrun
  obtain rfl := Option.some.inj (hbefore.symm.trans hi)
  -- the pass does not look at the symbols that may have been read
  obtain ⟨_, hequip', -⟩ := (through_equipAssembly _).exists_ends
    (Store.withoutSymbols_of_read_ok hbefore hread) hequip
  have haccounts := accounts_of_ends_equipAssembly hnumbers hequip'
  have hall := report.allFindings_account haccounts
  have hseen : report.resourcesSeen = before.assembly.resources.length := by
    rw [← before.assembly.length_accounts, ← hall, List.length_map]
    rfl
  refine ⟨haccounts, hseen, report.length_skipped_add_length_equipped.trans hseen,
    fun s hs r hr => ?_, ?_, ?_, ?_⟩
  · have hmem : s.account r ∈ before.assembly.accounts.flatten :=
      List.mem_flatten_of_mem (List.mem_map_of_mem hs) (List.mem_map_of_mem hr)
    rw [← hall] at hmem
    obtain ⟨finding, hfinding, haccount⟩ := List.mem_map.mp hmem
    rw [← haccount]
    exact Report.exists_entry hfinding
  · rw [← before.assembly.countP_accounts, ← hall, List.countP_map, Function.comp_def]
    simp only [namesClass_account]
    rfl
  · rw [← hall, List.filterMap_map, Function.comp_def]
    simp only [skip?_account]
    rfl
  · rw [← hall, List.filterMap_map, Function.comp_def]
    simp only [equipped?_account]
    rw [← List.map_filterMap]
    rfl

end

/-! ## A sample -/

namespace Sample

/-- A page whose class has a name. -/
def pageOf (className : String) : Resource :=
  ⟨className ++ ".xaml", 1, .embedded (Xml.bytes
    ("<A xmlns:x=\"http://schemas.microsoft.com/winfx/2006/xaml\" x:Class=\"" ++ className ++
      "\"/>"))⟩

/-- An assembly with two pages of one class, a page without a class, a page whose class has no
initializer, and something that is no page. -/
def assemblyCrowded : Assembly :=
  ⟨"App", [⟨"App.dll", [page, pageOf "Missing", ⟨"notes.txt", 1, .linked "notes.txt"⟩,
    pageOf "View", pageOf "Page"], [viewType .void, pageType], [], [], none⟩]⟩

/-- A store with that assembly. -/
def storeCrowded : Store :=
  (Store.empty []).insert config.assembly assemblyCrowded

/-- The store after a run. -/
def rewrittenCrowded : Store :=
  ((run config : Edit Store Report).run storeCrowded).state

/-- The report of that run.  The second page finds the class equipped and is equipped again. -/
def reportCrowded : Report :=
  ⟨[[.equipped ⟨"App.dll", "Page", ⟨0x06000003⟩, ⟨0x06000002⟩, ⟨0x06000004⟩, true, true⟩,
    .skipped ⟨"App.dll", "Missing.xaml", some "Missing", .typeNotFound⟩,
    .skipped ⟨"App.dll", "notes.txt", none, .notXaml⟩,
    .skipped ⟨"App.dll", "View.xaml", some "View", .noInitializer⟩,
    .equipped ⟨"App.dll", "Page", ⟨0x06000003⟩, ⟨0x06000002⟩, ⟨0x06000004⟩, false, false⟩]],
    .notRequested⟩

theorem ends_run_crowded :
    (run config : Edit Store Report).Ends storeCrowded (.ok reportCrowded) rewrittenCrowded :=
  ⟨by decide +kernel, rfl⟩

theorem numbersTypes_crowded : ∀ s ∈ assemblyCrowded.sections, s.NumbersTypes := by
  intro s hs
  obtain rfl := List.mem_singleton.mp hs
  refine ⟨(by decide : [(⟨0x02000001⟩ : Token), ⟨0x02000002⟩].Nodup), ?_⟩
  show ∀ t ∈ [viewType .void, pageType], t.token.table = Token.typeDefTable
  decide

end Sample

theorem run_accounts_sample :
    (run Sample.config : Edit Store Report).Ends Sample.storeCrowded (.ok Sample.reportCrowded)
        Sample.rewrittenCrowded ∧
      (∀ s ∈ Sample.assemblyCrowded.sections, s.NumbersTypes) ∧
      Sample.reportCrowded.findings.map (·.map Finding.account) =
        Sample.assemblyCrowded.accounts ∧
      Sample.reportCrowded.resourcesSeen = 5 ∧
      Sample.reportCrowded.typeLookups = 4 ∧
      Sample.reportCrowded.equipped.map (fun e => (e.sectionName, e.typeName)) =
        [("App.dll", "Page"), ("App.dll", "Page")] := by
  obtain ⟨haccounts, hseen, -⟩ :=
    run_accounts Sample.ends_run_crowded rfl Sample.numbersTypes_crowded
  exact ⟨Sample.ends_run_crowded, Sample.numbersTypes_crowded, haccounts, hseen, rfl, rfl⟩

end DualInit
