import DualInit.Error

/-!
# Configuration of a run

Which assembly to work on, where to look for the assemblies it refers to, and whether and in
which format debug symbols are read and written.

Search directories come from two settings: directories named outright, and the directories of
referenced files.  `searchDirectories` lists the former and then the latter, in the order in
which they were given, and passes over a directory that names the same place as one before it.
-/

namespace DualInit

/-- How an assembly is opened. -/
structure ReadOptions where
  searchDirectories : List Path
  readSymbols : Bool
  symbolFormat : SymbolFormat
deriving DecidableEq, Repr, Inhabited

/-- The format that a setting stands for.  A setting that is missing or blank stands for the
format native to the host. -/
def SymbolFormat.ofSetting (setting : Option String) : Except Error SymbolFormat :=
  match setting.map Blank.trim with
  | none | some "" => .ok hostDefault
  | some name =>
    match ofName? name with
    | some format => .ok format
    | none => .error (.unknownSymbolFormat name)

/-- What a run needs to know. -/
structure Config where
  assembly : Path
  dependencyDirectories : List Path
  /-- Files whose directories are to be searched. -/
  referencePaths : List Path
  debugSymbols : Bool
  readerFormat : SymbolFormat
  /-- The format symbols are written in, if it is not the one they are read in. -/
  writerOverride : Option SymbolFormat
deriving DecidableEq, Repr, Inhabited

namespace Config

/-- A configuration without search directories and without symbols. -/
def ofAssembly (assembly : Path) : Config :=
  ⟨assembly, [], [], false, .hostDefault, none⟩

/-- A configuration whose symbol format is a setting of the environment. -/
def ofEnvironment (setting : Option String) (assembly : Path) : Except Error Config := do
  return { ofAssembly assembly with readerFormat := ← SymbolFormat.ofSetting setting }

/-- Stands between the paths of a list. -/
def listSeparator : Char := ';'

/-- The paths of a list that are not empty. -/
def pathList (paths : String) : List Path :=
  (Split.nonempty listSeparator paths).map Path.mk

/-- Adds a list of directories to search. -/
def dependencyPaths (paths : String) (c : Config) : Config :=
  { c with dependencyDirectories := c.dependencyDirectories ++ pathList paths }

/-- Adds a list of files whose directories are to be searched; doubled slashes are made single
ones first. -/
def referencePath (paths : String) (c : Config) : Config :=
  let collapsed := String.ofList (Split.halvePairs '/' paths.toList)
  { c with referencePaths := c.referencePaths ++ pathList collapsed }

/-- Adds a directory to search. -/
def searchDirectory (directory : Path) (c : Config) : Config :=
  { c with dependencyDirectories := c.dependencyDirectories ++ [directory] }

/-- Whether symbols are read and written. -/
def withDebugSymbols (enabled : Bool) (c : Config) : Config :=
  { c with debugSymbols := enabled }

/-- The format symbols are read in, and written in unless another one is set. -/
def withSymbolFormat (format : SymbolFormat) (c : Config) : Config :=
  { c with readerFormat := format }

/-- The format symbols are written in. -/
def withSymbolWriter (format : SymbolFormat) (c : Config) : Config :=
  { c with writerOverride := some format }

/-- The format symbols are written in, or `none` if they are not to be written. -/
def writerFormat (c : Config) : Option SymbolFormat :=
  if c.debugSymbols then some (c.writerOverride.getD c.readerFormat) else none

/-- The directories of the referenced files. -/
def referenceDirectories (c : Config) : List Path :=
  (c.referencePaths.filterMap Path.parent).filter (!·.isEmpty)

/-- Keeps of several paths to the same place the first one; `seen` are the places passed. -/
def distinctFrom (seen : List Location) : List Path → List Path
  | [] => []
  | p :: ps =>
    if p.location ∈ seen then distinctFrom seen ps
    else p :: distinctFrom (p.location :: seen) ps

/-- The directories to search, in order. -/
def searchDirectories (c : Config) : List Path :=
  distinctFrom [] (c.dependencyDirectories ++ c.referenceDirectories)

/-- How the assembly is opened. -/
def readOptions (c : Config) : ReadOptions :=
  ⟨c.searchDirectories, c.debugSymbols, c.readerFormat⟩

end Config
end DualInit
