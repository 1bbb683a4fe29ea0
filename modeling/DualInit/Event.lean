import DualInit.Error
import DualInit.Symbol.Table

/-!
# Progress

What a run tells about itself while it works.  An event is a value with the data of what
happened; its severity and its wording are read off it by `level` and `message`.
-/

namespace DualInit

/-- How severe an event is. -/
inductive Level where
  | error
  | warn
  | info
  | debug
  | trace
deriving DecidableEq, Repr, Inhabited

/-- The name of a severity. -/
def Level.name : Level → String
  | error => "error"
  | warn => "warn"
  | info => "info"
  | debug => "debug"
  | trace => "trace"

/-- Why a resource does not lead to an equipped class. -/
inductive SkipReason where
  | notXaml
  | typeNotFound
  | noInitializer
deriving DecidableEq, Repr, Inhabited

/-- The wording of a reason. -/
def SkipReason.message : SkipReason → String
  | notXaml => "not a XAML resource"
  | typeNotFound => "no type found"
  | noInitializer => "no InitializeComponent found"

/-- Something that happened. -/
inductive Event where
  | preparing
  | assembly (path : Path)
  /-- A directory will be searched for referenced assemblies. -/
  | searchPath (directory : Path)
  | opened (path : Path) (sections : Nat)
  | released (path : Path)
  | releaseFailed (path : Path) (error : Error)
  | symbolMismatch (sectionName : String) (found wanted : SymbolFormat)
  | resolved (scope : String) (path : Path)
  | entering (sectionName : String)
  | unreadableHeader (resource : String)
  | describes (resource className : String)
  | undefinedClass (className sectionName : String)
  | resourceSkipped (resource : String) (reason : SkipReason)
  | typeSkipped (type : Token) (reason : SkipReason)
  | missingMethod (method typeName : String)
  | renamingMethod (typeName oldName newName : String)
  /-- A method was made anew, without any code. -/
  | recreated (method : String) (token : Token)
  | imported (typeName method : String) (token : Token)
  | replacingBody (typeName param : String)
  | addingConstructor (typeName param : String)
  | equipped (typeName sectionName : String)
  /-- The symbols of a method are recorded under another name. -/
  | symbolsRenamed (method : Token) (name : String)
  | symbolsRefreshed (sectionName : String) (changes : SymbolRefresh)
  | writing (path : Path)
  | writingWithSymbols (path : Path) (format : SymbolFormat)
  | symbolsNotWritten (format : SymbolFormat) (error : Error)
  | finished (classes : Nat)
deriving DecidableEq, Repr

namespace Event

/-- How severe an event is. -/
def level : Event → Level
  | releaseFailed .. => .error
  | symbolMismatch .. | unreadableHeader .. | symbolsNotWritten .. => .warn
  | preparing | assembly .. | equipped .. | writing .. | writingWithSymbols .. | finished .. => .info
  | searchPath .. | resolved .. | imported .. | symbolsRenamed .. => .trace
  | opened .. | released .. | entering .. | describes .. | undefinedClass .. | resourceSkipped ..
  | typeSkipped .. | missingMethod .. | renamingMethod .. | recreated .. | replacingBody ..
  | addingConstructor .. | symbolsRefreshed .. => .debug

/-- A constructor that takes a flag, as it is shown. -/
def flagConstructorText (typeName param : String) : String :=
  typeName ++ "." ++ typeName ++ "(bool " ++ param ++ ")"

/-- The wording of an event. -/
def message : Event → String
  | preparing => "Preparing debug code for xamlc"
  | assembly path => "Assembly: " ++ path.text
  | searchPath directory => "Adding search path " ++ directory.text
  | opened path sections =>
    "Opened " ++ path.text ++ " (" ++ toString sections ++ " section(s))"
  | released path => "Released " ++ path.text
  | releaseFailed path error => "Failed to release " ++ path.text ++ ": " ++ error.message
  | symbolMismatch sectionName found wanted =>
    "Symbols of " ++ sectionName ++ " are " ++ found.name ++ ", not " ++ wanted.name
  | resolved scope path => "Resolved assembly '" ++ scope ++ "' to " ++ path.text
  | entering sectionName => "Module: " ++ sectionName
  | unreadableHeader resource => "Unreadable XAML header in '" ++ resource ++ "'"
  | describes resource className => "Resource " ++ resource ++ ": class " ++ className
  | undefinedClass className sectionName => "No type '" ++ className ++ "' in " ++ sectionName
  | resourceSkipped resource reason =>
    "Resource " ++ resource ++ ": " ++ reason.message ++ ", skipped"
  | typeSkipped type reason => "Type " ++ type.text ++ ": " ++ reason.message ++ ", skipped"
  | missingMethod method typeName => "No " ++ method ++ " in " ++ typeName
  | renamingMethod typeName oldName newName =>
    "Renaming " ++ typeName ++ "." ++ oldName ++ "() into " ++ typeName ++ "." ++ newName ++ "()"
  | recreated method token => "Recreated empty " ++ method ++ " as " ++ token.text
  | imported typeName method token =>
    "Imported " ++ typeName ++ "::" ++ method ++ " as " ++ token.text
  | replacingBody typeName param => "Replacing body of " ++ flagConstructorText typeName param
  | addingConstructor typeName param => "Adding " ++ flagConstructorText typeName param
  | equipped typeName sectionName => "Rewrote " ++ typeName ++ " in " ++ sectionName
  | symbolsRenamed method name =>
    "Symbols of " ++ method.text ++ " now attributed to '" ++ name ++ "'"
  | symbolsRefreshed sectionName changes =>
    "Symbols of " ++ sectionName ++ ": " ++ toString changes.renamed ++ " renamed, " ++
      toString changes.dropped ++ " dropped"
  | writing path => "Writing " ++ path.text
  | writingWithSymbols path format =>
    "Writing " ++ path.text ++ " with " ++ format.name ++ " symbols"
  | symbolsNotWritten format error =>
    "Module written without " ++ format.name ++ " symbols: " ++ error.message
  | finished classes => "Done: " ++ toString classes ++ " type(s) rewritten"

end Event
end DualInit
