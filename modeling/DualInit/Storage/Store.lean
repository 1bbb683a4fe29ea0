import DualInit.Entries
import DualInit.Storage.Codec
import DualInit.Storage.Image

/-!
# Stores

A store keeps assemblies by the place their paths name.  An assembly that is open is locked: it
cannot be opened again until it is released.  Each request that fails leaves everything as it
was; in particular `writeAssembly` encodes every body before it replaces anything.

Referenced assemblies are looked for beside the assembly that refers to them and then in the
search directories, in each of them as a library before a program.  The first one that is stored
decides, whether it defines the type or not.
-/

namespace DualInit

/-- Assemblies by the places where they are stored. -/
structure Store where
  /-- The stored assemblies; of several in one place the first one counts. -/
  images : List (Location × Image)
  /-- The places of the assemblies that are open. -/
  locked : List Location
  /-- The formats that symbols can be written in. -/
  symbolFormats : List SymbolFormat
deriving DecidableEq, Repr, Inhabited

namespace Store

/-- A store without assemblies. -/
def empty (symbolFormats : List SymbolFormat) : Store :=
  ⟨[], [], symbolFormats⟩

/-- The assembly stored at a path. -/
def image? (s : Store) (path : Path) : Option Image :=
  s.images.lookup path.location

/-- Whether the assembly at a path is open. -/
def isLocked (s : Store) (path : Path) : Bool :=
  s.locked.contains path.location

/-- Puts an image in the place of what is stored at a path. -/
def putImage (path : Path) (i : Image) (s : Store) : Store :=
  { s with images := (path.location, i) :: s.images.filter (·.1 != path.location) }

/-- What stands at a path after an image was put there. -/
theorem image?_putImage (path other : Path) (i : Image) (s : Store) :
    (s.putImage path i).image? other =
      if other.location = path.location then some i else s.image? other := by
  show ((path.location, i) :: s.images.filter (·.1 != path.location)).lookup other.location = _
  rw [List.lookup_cons]
  by_cases h : other.location = path.location
  · rw [if_pos h, beq_iff_eq.mpr h]
  · rw [if_neg h, beq_false_of_ne h]
    exact (lookup_filter_bne ..).trans (if_neg h)

/-- Stores an assembly, as one that was never written. -/
def insert (path : Path) (a : Assembly) (s : Store) : Store :=
  s.putImage path (.ofAssembly a)

/-- The symbols of a section of the assembly stored at a path. -/
def symbols? (s : Store) (path : Path) (sectionIndex : Nat) : Option SymbolTable := do
  (← (← s.image? path).symbols[sectionIndex]?)

/-- The bytes of a method's body as the last write to a path has encoded it. -/
def methodBytes? (s : Store) (path : Path) (sectionIndex : Nat) (method : Token) :
    Option (List UInt8) := do
  (← s.image? path).methodBytes? sectionIndex method

/-- How many times the assembly at a path was written. -/
def writes (s : Store) (path : Path) : Nat :=
  ((s.image? path).map (·.writes)).getD 0

/-- How many times the symbols of the assembly at a path were written. -/
def symbolWrites (s : Store) (path : Path) : Nat :=
  ((s.image? path).map (·.symbolWrites)).getD 0

/-! ## Opening -/

/-- The first stored symbols that are in another format, with the name of their section. -/
def formatMismatch? (format : SymbolFormat) :
    List Section → List (Option SymbolTable) → Option (String × SymbolFormat)
  | s :: sections, some table :: tables =>
    if table.format = format then formatMismatch? format sections tables
    else some (s.name, table.format)
  | _ :: sections, none :: tables => formatMismatch? format sections tables
  | _, _ => none

/-- Sections with their stored symbols; a section without stored symbols stays as it is. -/
def attachSymbols : List Section → List (Option SymbolTable) → List Section
  | s :: sections, some table :: tables =>
    { s with symbols := some table } :: attachSymbols sections tables
  | s :: sections, none :: tables => s :: attachSymbols sections tables
  | sections, _ => sections

/-- The assembly of an image with its symbols.  The first section must have symbols, and no
section may have them in another format. -/
def withSymbols (path : Path) (i : Image) (format : SymbolFormat) :
    Except Error Assembly × List Event :=
  match i.symbols.head? with
  | some (some _) =>
    match formatMismatch? format i.assembly.sections i.symbols with
    | some (sectionName, found) =>
      (.error (.symbolsNotFound path format), [.symbolMismatch sectionName found format])
    | none =>
      (.ok { i.assembly with sections := attachSymbols i.assembly.sections i.symbols }, [])
  | _ => (.error (.symbolsNotFound path format), [])

/-- What opening the assembly at a path answers and tells. -/
def read (path : Path) (options : ReadOptions) (s : Store) : Except Error Assembly × List Event :=
  match s.image? path with
  | none => (.error (.assemblyNotStored path), [])
  | some i =>
    if s.isLocked path then (.error (.assemblyLocked path), [])
    else if options.readSymbols then withSymbols path i options.symbolFormat
    else (.ok i.assembly, [])

/-- The store in which the assembly at a path is open. -/
def lock (path : Path) (s : Store) : Store :=
  { s with locked := path.location :: s.locked }

/-- The store in which the assembly at a path is not open. -/
def unlock (path : Path) (s : Store) : Store :=
  { s with locked := s.locked.filter (· != path.location) }

/-- Releasing an assembly that was just opened leaves the locks as they were. -/
theorem unlock_lock {path : Path} {s : Store} (h : s.isLocked path = false) :
    (s.lock path).unlock path = s := by
  obtain ⟨images, locked, formats⟩ := s
  have hout : path.location ∉ locked := by
    simpa [isLocked, List.contains_eq_mem] using h
  have hkeep : locked.filter (· != path.location) = locked := by
    rw [List.filter_eq_self]
    intro place hplace
    exact bne_iff_ne.mpr fun heq => hout (heq ▸ hplace)
  show (⟨images, (path.location :: locked).filter (· != path.location), formats⟩ : Store) = _
  rw [List.filter_cons_of_neg (by simp), hkeep]

/-! ## Looking up referenced assemblies -/

/-- The files that a referenced assembly may be in, in the order in which they are tried. -/
def candidates (origin : Path) (scope : String) (directories : List Path) : List Path :=
  let start := (origin.parent).getD .empty
  (start :: directories).flatMap fun directory =>
    [directory.join ⟨scope ++ ".dll"⟩, directory.join ⟨scope ++ ".exe"⟩]

/-- The first of some files that is stored, with its image. -/
def firstStored (s : Store) : List Path → Option (Path × Image)
  | [] => none
  | path :: rest =>
    match s.image? path with
    | some i => some (path, i)
    | none => s.firstStored rest

/-- The type of a full name in a referenced assembly. -/
def resolveType (s : Store) (origin : Path) (scope fullName : String) (directories : List Path) :
    Except Error (Option TypeDef) × List Event :=
  match s.firstStored (candidates origin scope directories) with
  | none => (.error (.referenceNotFound scope), [])
  | some (path, i) => (.ok (i.assembly.findType fullName), [.resolved scope path])

/-! ## Writing -/

/-- Puts an assembly in the place of the one stored at a path. -/
def writeAssembly (path : Path) (a : Assembly) (s : Store) : Except Error Store := do
  let bodies ← Image.encodeBodies a
  match s.image? path with
  | none => throw (.assemblyNotStored path)
  | some i => return s.putImage path (i.withAssembly a bodies)

/-- Puts the symbols of an assembly in the place of those stored at a path. -/
def writeSymbols (path : Path) (a : Assembly) (format : SymbolFormat) (s : Store) :
    Except Error Store :=
  if format ∈ s.symbolFormats then
    match s.image? path with
    | none => .error (.assemblyNotStored path)
    | some i =>
      let tables := a.symbolTables.map fun table => table.map fun t => { t with format }
      .ok (s.putImage path { i with symbols := tables, symbolWrites := i.symbolWrites + 1 })
  else .error (.symbolFormatUnsupported format)

instance : Codec Store where
  openAssembly path options s :=
    match s.read path options with
    | (.ok a, told) => ⟨.ok a, s.lock path, told⟩
    | (.error e, told) => ⟨.error e, s, told⟩
  release path := .change (·.unlock path)
  resolveType s := s.resolveType
  writeAssembly path a := .attemptChange (·.writeAssembly path a)
  writeSymbols path a format := .attemptChange (·.writeSymbols path a format)

end Store

end DualInit
