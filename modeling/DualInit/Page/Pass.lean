import DualInit.Page.Descriptor
import DualInit.Page.FlagConstructor
import DualInit.Page.Report
import DualInit.Storage.Lease
import DualInit.Symbol.Refresh

/-!
# The pass

For each resource of each section: if it describes a page whose class the section defines and
whose initializer can be split, the class gets its two initializers and its flag constructor.
Resources that do not lead there are passed over; a failure ends the run.  Everything happens on
a leased copy, which is written once, at the end, so a run that fails has written nothing.
-/

namespace DualInit

/-! ## One resource -/

/-- The class that a resource describes; a header that cannot be read is told. -/
def describedClass {σ : Type} (r : Resource) : Edit σ (Option String) := do
  match Descriptor.read r with
  | .ok className => return className
  | .error _ =>
    Edit.tell (.unreadableHeader r.name)
    return none

/-- The type that a section defines for a class; a class without one is told. -/
def findTarget (className : String) : Edit Section (Option Token) := do
  let s ← Edit.current
  match s.findType className with
  | some t => return some t.token
  | none =>
    Edit.tell (.undefinedClass className s.name)
    return none

/-- Gives the class of a page, whose initializers are known, its flag constructor. -/
def equipType (external : Resolver) (className : String) (type : Token)
    (initializers : Initializers) : Edit Section Finding := do
  let constructor ← ensureFlagConstructor external type initializers
  let s ← Edit.current
  let typeName := (s.typeName type).getD className
  Edit.tell (.equipped typeName s.name)
  return .equipped
    { sectionName := s.name
      typeName
      precompiled := initializers.precompiled
      runtime := initializers.runtime
      flagConstructor := constructor.token
      placeholderCreated := initializers.placeholderCreated
      constructorCreated := constructor.created }

/-- Equips the class that a resource describes, or says why there is nothing to equip. -/
def equipResource (external : Resolver) (r : Resource) : Edit Section Finding := do
  let sectionName := (← Edit.current).name
  match ← describedClass r with
  | none =>
    Edit.tell (.resourceSkipped r.name .notXaml)
    return .skipped ⟨sectionName, r.name, none, .notXaml⟩
  | some className =>
    Edit.tell (.describes r.name className)
    match ← findTarget className with
    | none =>
      Edit.tell (.resourceSkipped r.name .typeNotFound)
      return .skipped ⟨sectionName, r.name, some className, .typeNotFound⟩
    | some type =>
      match ← locate type with
      | none =>
        Edit.tell (.typeSkipped type .noInitializer)
        return .skipped ⟨sectionName, r.name, some className, .noInitializer⟩
      | some initializers => equipType external className type initializers

/-! ## Sections and assemblies -/

/-- Equips the classes that several resources describe, in order. -/
def equipResources (external : Resolver) : List Resource → Edit Section (List Finding)
  | [] => return []
  | r :: rest => do
    let finding ← equipResource external r
    let findings ← equipResources external rest
    return finding :: findings

/-- Equips the classes that the resources of a section describe. -/
def equipSection (external : Resolver) : Edit Section (List Finding) := do
  let s ← Edit.current
  Edit.tell (.entering s.name)
  equipResources external s.resources

/-- Edits the sections of an assembly one after the other. -/
def eachSection {α : Type} (m : Edit Section α) : Edit Assembly (List α) :=
  Edit.focus Assembly.sections (fun sections a => { a with sections }) (Edit.each m)

/-- Equips the classes that the resources of all sections describe. -/
def equipAssembly (external : Resolver) : Edit Assembly (List (List Finding)) :=
  eachSection (equipSection external)

/-! ## Writing back -/

/-- Brings the symbols of a section in line with its methods and tells what that has changed. -/
def updateSymbols : Edit Section Unit := do
  match ← Section.bringSymbolsUpToDate with
  | none => return ()
  | some changes => Edit.tell (.symbolsRefreshed (← Edit.current).name changes)

variable {σ : Type} [Codec σ]

/-- Writes the leased assembly and then its symbols in a format, if one is given.  Symbols that
cannot be written do not make the assembly any less written. -/
def commit (format : Option SymbolFormat) : Edit (Session σ) SymbolOutcome := do
  let path := (← Edit.current).lease.path
  match format with
  | none =>
    Edit.tell (.writing path)
    Session.writeAssembly
    return .notRequested
  | some format =>
    let _ ← Session.editAssembly (eachSection updateSymbols)
    Edit.tell (.writingWithSymbols path format)
    Session.writeAssembly
    match ← Edit.catching (Session.writeSymbols format) with
    | .ok () => return .written format
    | .error e =>
      Edit.tell (.symbolsNotWritten format e)
      return .degraded format e

/-- Equips the classes of the leased assembly and writes it back. -/
def equipLeased (format : Option SymbolFormat) : Edit (Session σ) Report := do
  let s ← Edit.current
  let findings ← Session.editAssembly (equipAssembly s.resolver)
  let symbols ← commit format
  let report : Report := ⟨findings, symbols⟩
  Edit.tell (.finished report.equipped.length)
  return report

/-- Runs the pass over the assembly that a configuration names. -/
def run (config : Config) : Edit σ Report := do
  Edit.tellAll [.preparing, .assembly config.assembly]
  Edit.tellAll (config.searchDirectories.map .searchPath)
  Lease.holding config.assembly config.readOptions (equipLeased config.writerFormat)

end DualInit
