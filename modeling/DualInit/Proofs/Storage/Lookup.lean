import DualInit.Proofs.Storage.Requests

/-!
# Which assembly a reference leads to

A reference names an assembly and a type, and no place.  Directories are searched for the assembly,
that of the referring assembly before all others, and in each of them a library comes before a
program.  The search is over with the first file that is stored: the type is looked for in this one,
and if it is not there it is nowhere.

So a search comes to one of three things, and `resolveType_first_hit` says when to which: no file is
stored, the first file that is stored lacks the type, or it has the type.  What `Store.Lacks`,
`Store.FirstHit` and `Assembly.FirstNamed` speak of is stored images, by directory and file; the list
of candidates that is gone through does not occur in them.  `firstStored_candidates` joins both.

More directories behind those that are searched change the answer only if there is none without
them, and what is open does not matter at all.
-/

namespace DualInit

/-- The first section in order that has a type of a full name, with this type, or the answer that no
section has. -/
inductive Assembly.FirstNamed (a : Assembly) (fullName : String) : Option TypeDef → Prop where
  | found {front back : List Section} {s : Section} {t : TypeDef}
      (hsections : a.sections = front ++ s :: back)
      (hfront : ∀ s' ∈ front, s'.findType fullName = none) (h : s.findType fullName = some t) :
      FirstNamed a fullName (some t)
  | missing (h : ∀ s ∈ a.sections, s.findType fullName = none) : FirstNamed a fullName none

theorem Assembly.firstNamed_iff {a : Assembly} {fullName : String} {found : Option TypeDef} :
    a.FirstNamed fullName found ↔ a.findType fullName = found := by
  unfold findType
  constructor
  · intro h
    cases h with
    | found hsections hfront h =>
      exact List.findSome?_eq_some_iff.mpr ⟨_, _, _, hsections, h, hfront⟩
    | missing h => exact List.findSome?_eq_none_iff.mpr h
  · intro h
    cases found with
    | none => exact .missing (List.findSome?_eq_none_iff.mp h)
    | some t =>
      obtain ⟨front, s, back, hsections, h, hfront⟩ := List.findSome?_eq_some_iff.mp h
      exact .found hsections hfront h

namespace Store

variable {s : Store} {origin directory : Path} {scope fullName : String} {directories : List Path}
  {i : Image}

/-! ## One directory -/

/-- The library of a name in a directory. -/
def library (scope : String) (directory : Path) : Path :=
  directory.join ⟨scope ++ ".dll"⟩

/-- The program of a name in a directory. -/
def program (scope : String) (directory : Path) : Path :=
  directory.join ⟨scope ++ ".exe"⟩

/-- Neither a library nor a program of the name is stored in a directory. -/
def Lacks (s : Store) (scope : String) (directory : Path) : Prop :=
  s.image? (library scope directory) = none ∧ s.image? (program scope directory) = none

/-- A directory provides an assembly: its library of the name, or else its program. -/
inductive Provides (s : Store) (scope : String) (directory : Path) (i : Image) : Prop where
  | library (h : s.image? (library scope directory) = some i)
  | program (hlibrary : s.image? (Store.library scope directory) = none)
      (h : s.image? (Store.program scope directory) = some i)

/-- The file that a directory has for a name, with what is stored in it. -/
def hit? (s : Store) (scope : String) (directory : Path) : Option (Path × Image) :=
  s.firstStored [library scope directory, program scope directory]

theorem hit?_eq_none : s.hit? scope directory = none ↔ s.Lacks scope directory := by
  rw [hit?, firstStored_eq_none]
  simp [Lacks]

theorem exists_hit?_eq_some :
    (∃ path, s.hit? scope directory = some (path, i)) ↔ s.Provides scope directory i := by
  unfold hit?
  constructor
  · rintro ⟨path, h⟩
    rw [firstStored] at h
    split at h
    · next hlibrary =>
      cases h
      exact .library hlibrary
    · next hlibrary =>
      rw [firstStored] at h
      split at h
      · next hprogram =>
        cases h
        exact .program hlibrary hprogram
      · cases h
  · intro h
    cases h with
    | library h => exact ⟨_, by rw [firstStored, h]⟩
    | program hlibrary h => exact ⟨_, by rw [firstStored, hlibrary, firstStored, h]⟩

/-! ## All directories -/

/-- The directories that are searched, that of the referring assembly first. -/
def searched (origin : Path) (directories : List Path) : List Path :=
  origin.parent.getD .empty :: directories

/-- An image is provided by a directory, and the directories in front of it lack the assembly. -/
def FirstHit (s : Store) (scope : String) (directories : List Path) (i : Image) : Prop :=
  ∃ front directory back, directories = front ++ directory :: back ∧
    (∀ d ∈ front, s.Lacks scope d) ∧ s.Provides scope directory i

theorem firstStored_append (s : Store) (paths more : List Path) :
    s.firstStored (paths ++ more) = (s.firstStored paths).or (s.firstStored more) := by
  induction paths with
  | nil => rfl
  | cons path paths ih =>
    rw [List.cons_append, firstStored, firstStored]
    cases s.image? path with
    | none => exact ih
    | some i => rfl

/-- Going through the candidates is going through the directories. -/
theorem firstStored_candidates (s : Store) (origin : Path) (scope : String)
    (directories : List Path) :
    s.firstStored (candidates origin scope directories) =
      (searched origin directories).findSome? (s.hit? scope) := by
  show s.firstStored ((searched origin directories).flatMap fun d =>
    [library scope d, program scope d]) = _
  induction searched origin directories with
  | nil => rfl
  | cons d ds ih =>
    rw [List.flatMap_cons, firstStored_append, ih, List.findSome?_cons]
    show (s.hit? scope d).or _ = _
    cases s.hit? scope d <;> rfl

theorem exists_findSome?_hit? :
    (∃ path, directories.findSome? (s.hit? scope) = some (path, i)) ↔
      s.FirstHit scope directories i := by
  constructor
  · rintro ⟨path, h⟩
    obtain ⟨front, d, back, hsplit, hd, hfront⟩ := List.findSome?_eq_some_iff.mp h
    exact ⟨front, d, back, hsplit, fun d' hd' => hit?_eq_none.mp (hfront d' hd'),
      exists_hit?_eq_some.mp ⟨path, hd⟩⟩
  · rintro ⟨front, d, back, hsplit, hfront, hd⟩
    obtain ⟨path, hd⟩ := exists_hit?_eq_some.mpr hd
    exact ⟨path, List.findSome?_eq_some_iff.mpr
      ⟨front, d, back, hsplit, hd, fun d' hd' => hit?_eq_none.mpr (hfront d' hd')⟩⟩

/-- The answer to a reference depends on nothing but the first file that is stored. -/
theorem resolveType_congr {t : Store} {directories' : List Path}
    (h : (searched origin directories).findSome? (s.hit? scope) =
      (searched origin directories').findSome? (t.hit? scope)) :
    s.resolveType origin scope fullName directories =
      t.resolveType origin scope fullName directories' := by
  unfold resolveType
  rw [firstStored_candidates, firstStored_candidates, h]

theorem resolveType_ok {found : Option TypeDef} :
    (s.resolveType origin scope fullName directories).1 = .ok found ↔
      ∃ i, s.FirstHit scope (searched origin directories) i ∧
        i.assembly.FirstNamed fullName found := by
  unfold resolveType
  rw [firstStored_candidates]
  cases hhit : (searched origin directories).findSome? (s.hit? scope) with
  | none =>
    constructor
    · intro h
      cases h
    · rintro ⟨i, hfirst, -⟩
      obtain ⟨path, hpath⟩ := exists_findSome?_hit?.mpr hfirst
      rw [hhit] at hpath
      cases hpath
  | some hit =>
    obtain ⟨path, i⟩ := hit
    constructor
    · intro h
      exact ⟨i, exists_findSome?_hit?.mp ⟨path, hhit⟩, Assembly.firstNamed_iff.mpr (Except.ok.inj h)⟩
    · rintro ⟨j, hfirst, hnamed⟩
      obtain ⟨path', hpath'⟩ := exists_findSome?_hit?.mpr hfirst
      obtain ⟨-, rfl⟩ := Prod.mk.inj (Option.some.inj (hhit.symm.trans hpath'))
      exact congrArg Except.ok (Assembly.firstNamed_iff.mp hnamed)

/-- **The first file that is stored decides about a reference.**  Whatever is stored, for every
referring assembly, name of an assembly and full name of a type:

* more directories behind those that are searched change nothing, unless the assembly is not found
  without them;
* the only error is that the assembly is not found, and it arises exactly if no directory that is
  searched has a library or a program of the name;
* a type is answered, or that there is none, exactly if the first of the directories to have a
  library or a program of the name provides an assembly in which this is the first type of the full
  name, or in which there is none;
* what is open does not matter. -/
theorem resolveType_first_hit (s : Store) (origin : Path) (scope fullName : String)
    (directories more : List Path) :
    ((s.resolveType origin scope fullName directories).1 ≠ .error (.referenceNotFound scope) →
      s.resolveType origin scope fullName (directories ++ more) =
        s.resolveType origin scope fullName directories) ∧
    (∀ e, (s.resolveType origin scope fullName directories).1 = .error e ↔
      e = .referenceNotFound scope ∧ ∀ d ∈ searched origin directories, s.Lacks scope d) ∧
    (∀ found, (s.resolveType origin scope fullName directories).1 = .ok found ↔
      ∃ i, s.FirstHit scope (searched origin directories) i ∧
        i.assembly.FirstNamed fullName found) ∧
    ∀ locked, ({ s with locked } : Store).resolveType origin scope fullName directories =
      s.resolveType origin scope fullName directories := by
  have hlacks : (searched origin directories).findSome? (s.hit? scope) = none ↔
      ∀ d ∈ searched origin directories, s.Lacks scope d :=
    List.findSome?_eq_none_iff.trans (forall₂_congr fun _ _ => hit?_eq_none)
  have herror : ∀ e, (s.resolveType origin scope fullName directories).1 = .error e ↔
      e = .referenceNotFound scope ∧ ∀ d ∈ searched origin directories, s.Lacks scope d := by
    intro e
    rw [resolveType_error, ← firstStored_eq_none, firstStored_candidates, hlacks]
  refine ⟨fun hfound => resolveType_congr ?_, herror, fun found => resolveType_ok, fun locked => ?_⟩
  · show (searched origin directories ++ more).findSome? _ = _
    rw [List.findSome?_append]
    cases hhit : (searched origin directories).findSome? (s.hit? scope) with
    | none => exact absurd ((herror _).mpr ⟨rfl, hlacks.mp hhit⟩) hfound
    | some hit => rfl
  · have hsame : ({ s with locked } : Store).hit? scope = s.hit? scope :=
      funext fun d => firstStored_congr (fun _ => rfl) _
    exact resolveType_congr (by rw [hsame])

end Store
end DualInit
