import DualInit.Proofs.Storage.Locations
import DualInit.Proofs.Storage.Lookup

/-!
# Which directories are searched

Search directories are given in several settings, of two kinds, and the settings may stand in any
order.  A directory may be given more than once, and in more than one spelling.  What is searched in
the end is a list of places in which each place occurs once, where it was given first
(`distinctFrom_eq`); directories that are given outright come before those of referenced files,
whatever the order of the settings.  What the entries of a list are is said by `pathList_join` and
`files_join`.

Leaving out the later spellings of a place cannot lead a reference elsewhere: for a place that was
searched in vain before, the same files are looked for under every spelling of it
(`lacks_congr`), so a search may pass it over (`findSome?_distinctFrom`).
-/

namespace DualInit

/-! ## Settings -/

/-- A setting that adds to what is searched. -/
inductive SearchSetting where
  /-- A list of directories. -/
  | dependencyPaths (paths : String)
  /-- A directory. -/
  | searchDirectory (directory : Path)
  /-- A list of referenced files. -/
  | referencePath (paths : String)
deriving DecidableEq, Repr

namespace SearchSetting

/-- Makes a setting. -/
def apply : SearchSetting → Config → Config
  | dependencyPaths paths => Config.dependencyPaths paths
  | searchDirectory directory => Config.searchDirectory directory
  | referencePath paths => Config.referencePath paths

/-- The directories that a setting gives outright. -/
def directories : SearchSetting → List Path
  | dependencyPaths paths => Config.pathList paths
  | searchDirectory directory => [directory]
  | referencePath _ => []

/-- The files that a setting refers to. -/
def files : SearchSetting → List Path
  | referencePath paths => Config.pathList (String.ofList (Split.halvePairs '/' paths.toList))
  | _ => []

/-- Whether a setting is one of referenced files. -/
def isReference : SearchSetting → Bool
  | referencePath _ => true
  | _ => false

/-- All directories that settings give, in order: those that are given outright, and then those of
the referenced files, if they have one. -/
def listed (settings : List SearchSetting) : List Path :=
  settings.flatMap directories ++
    ((settings.flatMap files).filterMap Path.parent).filter (!·.isEmpty)

/-- The entries of a list are what separators stand between, without those that are empty. -/
theorem pathList_join {entries : List (List Char)} (hne : entries ≠ [])
    (h : ∀ entry ∈ entries, Config.listSeparator ∉ entry) :
    Config.pathList (String.ofList (Split.join Config.listSeparator entries)) =
      (entries.filter (· ≠ [])).map fun entry => ⟨String.ofList entry⟩ := by
  have hempty : (fun entry => decide (String.ofList entry ≠ "")) = fun entry => decide (entry ≠ []) :=
    funext fun entry => by simp
  rw [Config.pathList, Split.nonempty, Split.texts, String.toList_ofList, Split.pieces_join hne h,
    List.filter_map, List.map_map, Function.comp_def, Function.comp_def, hempty]

/-- In the entries of a list of files runs of slashes are cut in half first. -/
theorem files_join {entries : List (List Char)} (hne : entries ≠ [])
    (h : ∀ entry ∈ entries, Config.listSeparator ∉ entry) :
    files (.referencePath (String.ofList (Split.join Config.listSeparator entries))) =
      (entries.filter (· ≠ [])).map fun entry => ⟨String.ofList (Split.halvePairs '/' entry)⟩ := by
  rw [files, String.toList_ofList, Split.halvePairs_join (by decide), pathList_join]
  · simp [List.filter_map, Function.comp_def, Split.halvePairs_eq_nil]
  · simpa using hne
  · simp only [List.forall_mem_map]
    exact fun entry hentry hmem => h entry hentry (Split.mem_of_mem_halvePairs hmem)

/-- Settings of referenced files give no directories outright, and the others give no files. -/
theorem flatMap_filter (settings : List SearchSetting) :
    (settings.filter (!·.isReference)).flatMap directories = settings.flatMap directories ∧
      (settings.filter (·.isReference)).flatMap files = settings.flatMap files := by
  induction settings with
  | nil => exact ⟨rfl, rfl⟩
  | cons setting settings ih =>
    obtain ⟨hdirectories, hfiles⟩ := ih
    cases setting with
    | dependencyPaths | searchDirectory =>
      refine ⟨?_, hfiles⟩
      rw [List.filter_cons_of_pos rfl, List.flatMap_cons, List.flatMap_cons, hdirectories]
    | referencePath =>
      refine ⟨hdirectories, ?_⟩
      rw [List.filter_cons_of_pos rfl, List.flatMap_cons, List.flatMap_cons, hfiles]

end SearchSetting

namespace Config

variable {settings settings' : List SearchSetting}

/-- A new configuration after some settings. -/
def configured (assembly : Path) (settings : List SearchSetting) : Config :=
  settings.foldl (fun c setting => setting.apply c) (.ofAssembly assembly)

theorem foldl_apply (settings : List SearchSetting) (c : Config) :
    (settings.foldl (fun c setting => setting.apply c) c).dependencyDirectories =
        c.dependencyDirectories ++ settings.flatMap SearchSetting.directories ∧
      (settings.foldl (fun c setting => setting.apply c) c).referencePaths =
        c.referencePaths ++ settings.flatMap SearchSetting.files := by
  induction settings generalizing c with
  | nil => exact ⟨(List.append_nil _).symm, (List.append_nil _).symm⟩
  | cons setting settings ih =>
    obtain ⟨hdirectories, hfiles⟩ := ih (setting.apply c)
    rw [List.foldl_cons, hdirectories, hfiles, List.flatMap_cons, List.flatMap_cons,
      ← List.append_assoc, ← List.append_assoc]
    cases setting with
    | dependencyPaths paths => exact ⟨rfl, congrArg (· ++ _) (List.append_nil _).symm⟩
    | searchDirectory directory => exact ⟨rfl, congrArg (· ++ _) (List.append_nil _).symm⟩
    | referencePath paths => exact ⟨congrArg (· ++ _) (List.append_nil _).symm, rfl⟩

/-- What is searched is what the settings list, without doubles. -/
theorem searchDirectories_eq (assembly : Path) (settings : List SearchSetting) :
    (configured assembly settings).searchDirectories =
      distinctFrom [] (SearchSetting.listed settings) := by
  obtain ⟨hdirectories, hfiles⟩ := foldl_apply settings (.ofAssembly assembly)
  rw [searchDirectories, referenceDirectories, configured, hdirectories, hfiles]
  rfl

/-! ## Doubles -/

/-- Of the spellings of a place that was not passed the first one is kept. -/
theorem distinctFrom_eq (seen : List Location) (paths : List Path) :
    distinctFrom seen paths =
      (paths.filter (·.location ∉ seen)).eraseDupsBy fun p q => p.location == q.location := by
  induction paths generalizing seen with
  | nil => rfl
  | cons p paths ih =>
    rw [distinctFrom]
    split
    · next hp =>
      rw [List.filter_cons_of_neg (by simp [hp])]
      exact ih seen
    · next hp =>
      have hpassed : paths.filter (·.location ∉ p.location :: seen) =
          paths.filter fun q => decide ((q.location == p.location) = false) && q.location ∉ seen :=
        List.filter_congr fun q _ => by simp
      rw [List.filter_cons_of_pos (by simp [hp]), List.eraseDupsBy_cons, ih, List.filter_filter,
        hpassed]

theorem location_notMem_of_mem_distinctFrom {seen : List Location} {paths : List Path} {p : Path}
    (h : p ∈ distinctFrom seen paths) : p.location ∉ seen := by
  induction paths generalizing seen with
  | nil => cases h
  | cons q paths ih =>
    rw [distinctFrom] at h
    split at h
    · exact ih h
    · next hq =>
      rcases List.mem_cons.mp h with rfl | h
      · exact hq
      · exact fun hp => ih h (List.mem_cons_of_mem _ hp)

/-- No place is listed twice. -/
theorem nodup_distinctFrom (seen : List Location) (paths : List Path) :
    ((distinctFrom seen paths).map Path.location).Nodup := by
  induction paths generalizing seen with
  | nil => exact List.nodup_nil
  | cons p paths ih =>
    rw [distinctFrom]
    split
    · exact ih seen
    · rw [List.map_cons, List.nodup_cons]
      refine ⟨fun hp => ?_, ih _⟩
      obtain ⟨q, hq, hlocation⟩ := List.mem_map.mp hp
      exact location_notMem_of_mem_distinctFrom hq (hlocation ▸ List.mem_cons_self)

/-- A search for something that a place has under every spelling or under none may pass over places
that it was at. -/
theorem findSome?_distinctFrom {β : Type} {f : Path → Option β}
    (hf : ∀ p q, p.location = q.location → f p = none → f q = none) {seen : List Location}
    (hseen : ∀ p : Path, p.location ∈ seen → f p = none) (paths : List Path) :
    (distinctFrom seen paths).findSome? f = paths.findSome? f := by
  induction paths generalizing seen with
  | nil => rfl
  | cons p paths ih =>
    rw [distinctFrom, List.findSome?_cons]
    split
    · next hp => rw [hseen p hp, ih hseen]
    · rw [List.findSome?_cons]
      cases hfound : f p with
      | some b => rfl
      | none =>
        refine ih fun q hq => ?_
        rcases List.mem_cons.mp hq with hq | hq
        · exact hf p q hq.symm hfound
        · exact hseen q hq

end Config

/-! ## What is found -/

/-- A place has the same files under every spelling. -/
theorem Store.lacks_congr {s : Store} {scope : String} {directory other : Path}
    (h : directory.location = other.location) (hlacks : s.Lacks scope directory) :
    s.Lacks scope other := by
  unfold Lacks image? library program at hlacks ⊢
  rw [← Path.location_join_congr h, ← Path.location_join_congr h]
  exact hlacks

/-- **What is searched is what was given, each place once and where it was given first.**  For every
assembly and every sequence of settings of a new configuration:

* no two directories that are searched are in the same place;
* they are the directories that the settings list, without those that are in the place of one before
  them;
* settings that have the same directories in the same order and the same referenced files in the same
  order come to the same, however the two are mixed;
* whatever is stored, every reference is answered as if all directories on the list were searched. -/
theorem searchDirectories_configured (assembly : Path) (settings : List SearchSetting) :
    (((Config.configured assembly settings).searchDirectories).map Path.location).Nodup ∧
    (Config.configured assembly settings).searchDirectories =
      (SearchSetting.listed settings).eraseDupsBy (fun p q => p.location == q.location) ∧
    (∀ (assembly' : Path) (settings' : List SearchSetting),
      settings'.filter (!·.isReference) = settings.filter (!·.isReference) →
      settings'.filter (·.isReference) = settings.filter (·.isReference) →
      (Config.configured assembly' settings').searchDirectories =
        (Config.configured assembly settings).searchDirectories) ∧
    ∀ (s : Store) (origin : Path) (scope fullName : String),
      s.resolveType origin scope fullName (Config.configured assembly settings).searchDirectories =
        s.resolveType origin scope fullName (SearchSetting.listed settings) := by
  rw [Config.searchDirectories_eq]
  refine ⟨Config.nodup_distinctFrom _ _, ?_, ?_, ?_⟩
  · rw [Config.distinctFrom_eq, List.filter_eq_self.mpr (by simp)]
  · intro assembly' settings' hdirectories hfiles
    have hlisted : SearchSetting.listed settings' = SearchSetting.listed settings := by
      rw [SearchSetting.listed, SearchSetting.listed,
        ← (SearchSetting.flatMap_filter settings').1, ← (SearchSetting.flatMap_filter settings').2,
        hdirectories, hfiles, (SearchSetting.flatMap_filter settings).1,
        (SearchSetting.flatMap_filter settings).2]
    rw [Config.searchDirectories_eq, hlisted]
  · intro s origin scope fullName
    refine Store.resolveType_congr ?_
    have hpass : ∀ p q : Path, p.location = q.location → s.hit? scope p = none →
        s.hit? scope q = none := by
      intro p q hplace hp
      rw [Store.hit?_eq_none] at hp ⊢
      exact Store.lacks_congr hplace hp
    rw [Store.searched, Store.searched, List.findSome?_cons, List.findSome?_cons,
      Config.findSome?_distinctFrom hpass (fun _ h => absurd h List.not_mem_nil)]

example : (Config.configured ⟨"bin/App.dll"⟩ [.dependencyPaths "deps/a;;deps/b",
    .referencePath "refs//core/Core.dll;refs/core/Xaml.dll;Loose.dll",
    .searchDirectory ⟨"deps//a/"⟩]).searchDirectories =
    [⟨"deps/a"⟩, ⟨"deps/b"⟩, ⟨"refs/core"⟩] := by
  decide +kernel

end DualInit
