import DualInit.TokenMap
import DualInit.Symbol.Format

/-!
# Debug symbols

Symbols attribute the code of a method to lines of a source document.  They are kept under the
method's token, so a method that is renamed keeps them; the name recorded with them is brought
up to date by `SymbolTable.refresh`, which also drops the symbols of methods that are gone.

When a body is replaced its points say nothing any more.  `SymbolTable.hideMethod` leaves a
single point at the start of the code that belongs to the document but to none of its lines.
-/

namespace DualInit

/-- Attributes an offset of the code to a place in a source document. -/
structure SequencePoint where
  offset : Nat
  document : String
  startLine : Nat
  startColumn : Nat
  endLine : Nat
  endColumn : Nat
deriving DecidableEq, Repr, Inhabited

namespace SequencePoint

/-- The line that stands for no line of the document. -/
def hiddenLine : Nat := 0xFEEFEE

/-- Whether a point hides its code from the debugger. -/
def isHidden (p : SequencePoint) : Bool :=
  p.startLine == hiddenLine

/-- The point that hides a body from its start on. -/
def hidden (document : String) : SequencePoint :=
  ⟨0, document, hiddenLine, 0, hiddenLine, 0⟩

end SequencePoint

/-- The symbols of a method. -/
structure MethodSymbols where
  name : String
  points : List SequencePoint
deriving DecidableEq, Repr, Inhabited

/-- The symbols of a method whose body was replaced: at most one point, hidden, in the first
document. -/
def MethodSymbols.hide (s : MethodSymbols) : MethodSymbols :=
  { s with points := s.points.head?.toList.map fun p => .hidden p.document }

/-- The symbols of a section. -/
structure SymbolTable where
  format : SymbolFormat
  methods : TokenMap MethodSymbols
deriving DecidableEq, Repr, Inhabited

/-- What bringing a table up to date has changed. -/
structure SymbolRefresh where
  /-- How many recorded names changed. -/
  renamed : Nat
  /-- How many methods were dropped. -/
  dropped : Nat
deriving DecidableEq, Repr, Inhabited

namespace SymbolTable

/-- The symbols of a method. -/
def get? (t : SymbolTable) (method : Token) : Option MethodSymbols :=
  t.methods.get? method

/-- Records the symbols of a method in the place of earlier ones. -/
def insert (method : Token) (symbols : MethodSymbols) (t : SymbolTable) : SymbolTable :=
  { t with methods := t.methods.insert method symbols }

/-- Hides the code of a method whose body was replaced. -/
def hideMethod (method : Token) (t : SymbolTable) : SymbolTable :=
  { t with methods := t.methods.adjust method .hide }

/-- The name listed for a method; of several the last one counts. -/
def liveName? (live : List (Token × String)) (method : Token) : Option String :=
  live.reverse.lookup method

/-- The methods whose recorded name differs from the listed one, with the listed name. -/
def renamings (live : List (Token × String)) (t : SymbolTable) : List (Token × String) :=
  t.methods.entries.filterMap fun (method, symbols) =>
    match liveName? live method with
    | some name => if symbols.name = name then none else some (method, name)
    | none => none

/-- Brings a table in line with the listed methods and their names. -/
def refreshed (live : List (Token × String)) (t : SymbolTable) : SymbolTable :=
  { t with methods := t.methods.filterMap fun method symbols =>
      (liveName? live method).map fun name => { symbols with name } }

/-- What bringing a table up to date changes. -/
def changes (live : List (Token × String)) (t : SymbolTable) : SymbolRefresh where
  renamed := (t.renamings live).length
  dropped := t.methods.entries.countP fun e => (liveName? live e.1).isNone

/-- Brings a table in line with the listed methods and says what that has changed. -/
def refresh (live : List (Token × String)) (t : SymbolTable) : SymbolTable × SymbolRefresh :=
  (t.refreshed live, t.changes live)

end SymbolTable
end DualInit
