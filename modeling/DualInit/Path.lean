import DualInit.Text.Split

/-!
# Paths and the locations they name

A path is a text and is shown as it was given.  Several texts name the same place: doubled and
trailing separators and inner `.` pieces do not count.  `Path.location` is the place, and it is
what the store is keyed by, so that two spellings of one path share an image and a lock.

A leading `.` does count (`./a` is not `a`), and `..` is a piece like any other, because what it
leads to depends on the file system.

`Path.parent` and `Path.join` work on the text and keep the spelling of what they do not cut
off.
-/

namespace DualInit

/-- A path, as it was written. -/
structure Path where
  text : String
deriving DecidableEq, Repr, Inhabited

/-- Where a path starts from. -/
inductive PathStart where
  | root
  /-- The current directory, said with a leading `.`. -/
  | here
  /-- The current directory, left unsaid. -/
  | bare
deriving DecidableEq, Repr, Inhabited

/-- The place a path names: where it starts and the pieces that lead on from there. -/
structure Location where
  start : PathStart
  /-- The names of the pieces that count. -/
  names : List String
deriving DecidableEq, Repr, Inhabited

namespace PathStart

/-- The text a start is written with. -/
def chars : PathStart → List Char
  | root => ['/']
  | here => ['.']
  | bare => []

end PathStart

namespace Path

instance : ToString Path := ⟨Path.text⟩

/-- The path without any text. -/
def empty : Path := ⟨""⟩

/-- Whether a path has no text. -/
def isEmpty (p : Path) : Bool :=
  p.text == ""

/-- Where a path starts, and the text behind that start. -/
def opening : List Char → PathStart × List Char
  | '/' :: rest => (.root, rest)
  | ['.'] => (.here, [])
  | '.' :: '/' :: rest => (.here, '/' :: rest)
  | rest => (.bare, rest)

/-- Whether a piece behind the start leads anywhere: empty pieces and `.` stay where they are. -/
def counts (piece : List Char) : Bool :=
  piece != [] && piece != ['.']

/-- Pieces without those at the end that do not count. -/
def trimEnd (pieces : List (List Char)) : List (List Char) :=
  (pieces.reverse.dropWhile (fun piece => !counts piece)).reverse

/-- The place a path names. -/
def location (p : Path) : Location :=
  let (start, body) := opening p.text.toList
  ⟨start, ((Split.pieces '/' body).filter counts).map String.ofList⟩

/-- The path without its last piece that counts.  The root and the empty path have no parent;
the parent of a single relative piece is the empty path. -/
def parent (p : Path) : Option Path :=
  let (start, body) := opening p.text.toList
  match trimEnd (Split.pieces '/' body) with
  | [] => if start = .here then some empty else none
  | kept => some ⟨String.ofList (start.chars ++ Split.join '/' (trimEnd kept.dropLast))⟩

/-- A path followed from another one.  An absolute path does not care where it is followed
from. -/
def join (dir next : Path) : Path :=
  if next.text.toList.head? = some '/' then next
  else if dir.isEmpty || dir.text.toList.getLast? = some '/' then ⟨dir.text ++ next.text⟩
  else ⟨dir.text ++ "/" ++ next.text⟩

end Path
end DualInit
