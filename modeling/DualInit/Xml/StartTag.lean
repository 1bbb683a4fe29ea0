import DualInit.Xml.Fault

/-!
# The first start tag

`StartTag.find` passes over text, comments, character data, document types and processing
instructions, and reads the first start tag.  It goes through the bytes once, from left to
right, and stops behind the tag's closing `>`: what follows is handed back unread, which is why
nothing behind the tag can change what was found (`find_front`).

A byte order mark is text like any other in front of the tag.
-/

namespace DualInit
namespace Xml
namespace StartTag

/-- Where in a header a reader is. -/
inductive Mode where
  | text
  | opened
  | declared
  | commentOpening
  | comment (dashes : Nat)
  /-- Behind `<![`, with the rest of the opening still to come. -/
  | dataOpening (rest : List UInt8)
  /-- In character data, behind so many closing brackets. -/
  | data (brackets : Nat)
  /-- In the keyword of a document type, with the rest of it, in small letters, still to come. -/
  | typeOpening (rest : List UInt8)
  /-- In a document type, inside so many angle brackets; `named` if it has said anything. -/
  | documentType (depth : Nat) (named : Bool)
  | instructionOpening
  /-- In a processing instruction; `closing` behind a question mark. -/
  | instruction (closing : Bool)
  /-- In a start tag, perhaps inside quotes, with the bytes read so far, the last one first. -/
  | tag (quote : Option UInt8) (read : List UInt8)
deriving DecidableEq, Repr, Inhabited

/-- What a byte leads to: another mode, or the end of the start tag. -/
inductive Step where
  | into (mode : Mode)
  /-- The start tag has ended; its bytes stand between `<` and `>`. -/
  | ended (tag : List UInt8)
deriving DecidableEq, Repr, Inhabited

/-- A small letter for a capital one. -/
def lowered (b : UInt8) : UInt8 :=
  if 0x41 ≤ b ∧ b ≤ 0x5A then b + 0x20 else b

/-- The quote that is open behind a byte of a start tag. -/
def quoteAfter (quote : Option UInt8) (b : UInt8) : Option UInt8 :=
  match quote with
  | some q => if b = q then none else some q
  | none => if b = byte '"' ∨ b = byte '\'' then some b else none

/-- A byte in a start tag. -/
def stepTag (quote : Option UInt8) (read : List UInt8) (b : UInt8) : Step :=
  if quote = none ∧ b = byte '>' then .ended read.reverse
  else .into (.tag (quoteAfter quote b) (b :: read))

/-- A byte in a mode. -/
def step : Mode → UInt8 → Except Fault Step
  | .text, b => .ok (.into (if b = byte '<' then .opened else .text))
  | .opened, b =>
    if b = byte '!' then .ok (.into .declared)
    else if b = byte '?' then .ok (.into .instructionOpening)
    else if b = byte '/' then .error .strayEndTag
    else .ok (stepTag none [] b)
  | .declared, b =>
    if b = byte '-' then .ok (.into .commentOpening)
    else if b = byte '[' then .ok (.into (.dataOpening (bytes "CDATA[")))
    else if lowered b = byte 'd' then .ok (.into (.typeOpening (bytes "octype")))
    else .error .unknownDeclaration
  | .commentOpening, b =>
    if b = byte '-' then .ok (.into (.comment 0)) else .error .unknownDeclaration
  | .comment dashes, b =>
    if b = byte '-' then .ok (.into (.comment (dashes + 1)))
    else if b = byte '>' ∧ 2 ≤ dashes then .ok (.into .text)
    else .ok (.into (.comment 0))
  | .dataOpening [], b =>
    .ok (.into (.data (if b = byte ']' then 1 else 0)))
  | .dataOpening (expected :: rest), b =>
    if b = expected then .ok (.into (.dataOpening rest)) else .error .unknownDeclaration
  | .data brackets, b =>
    if b = byte ']' then .ok (.into (.data (brackets + 1)))
    else if b = byte '>' ∧ 2 ≤ brackets then .ok (.into .text)
    else .ok (.into (.data 0))
  | .typeOpening (expected :: rest), b =>
    if lowered b = expected then .ok (.into (.typeOpening rest)) else .error .unknownDeclaration
  | .typeOpening [], b => stepType 0 false b
  | .documentType depth named, b => stepType depth named b
  | .instructionOpening, b =>
    if b = byte '>' then .error .emptyInstruction
    else .ok (.into (.instruction (b == byte '?')))
  | .instruction closing, b =>
    if b = byte '>' ∧ closing then .ok (.into .text)
    else .ok (.into (.instruction (b == byte '?')))
  | .tag quote read, b => .ok (stepTag quote read b)
where
  /-- A byte behind the keyword of a document type. -/
  stepType (depth : Nat) (named : Bool) (b : UInt8) : Except Fault Step :=
    if b = byte '<' then .ok (.into (.documentType (depth + 1) true))
    else if b = byte '>' then
      match depth with
      | depth + 1 => .ok (.into (.documentType depth true))
      | 0 => if named then .ok (.into .text) else .error .emptyDocumentType
    else .ok (.into (.documentType depth (named || !isBlank b)))

/-- Reads on in a mode: the bytes of the first start tag, if there is one, and the input behind
it. -/
def findIn : Mode → List UInt8 → Except Fault (Option (List UInt8 × List UInt8))
  | .text, [] => .ok none
  | _, [] => .error .unterminated
  | mode, b :: rest =>
    match step mode b with
    | .error fault => .error fault
    | .ok (.into next) => findIn next rest
    | .ok (.ended tag) => .ok (some (tag, rest))

/-- The bytes of the first start tag, if there is one, and the input behind it. -/
def find (input : List UInt8) : Except Fault (Option (List UInt8 × List UInt8)) :=
  findIn .text input

/-- How many pieces of markup a reader in a mode passes over. -/
def passedIn : Mode → List UInt8 → Nat
  | _, [] => 0
  | mode, b :: rest =>
    match step mode b with
    | .ok (.into next) => passedIn next rest + if next = .text ∧ mode ≠ .text then 1 else 0
    | _ => 0

/-- How many pieces of markup stand in front of the first start tag. -/
def passed (input : List UInt8) : Nat :=
  passedIn .text input

/-- A tag is found in what stands in front of the unread input, whatever the unread input is. -/
theorem findIn_front {mode : Mode} {input tag rest : List UInt8}
    (h : findIn mode input = .ok (some (tag, rest))) :
    ∃ front, input = front ++ rest ∧ ∀ more, findIn mode (front ++ more) = .ok (some (tag, more)) := by
  induction input generalizing mode with
  | nil => cases mode <;> cases h
  | cons b input ih =>
    rw [findIn] at h
    cases hs : step mode b with
    | error fault => rw [hs] at h; cases h
    | ok next =>
      rw [hs] at h
      cases next with
      | into next =>
        obtain ⟨front, rfl, hfront⟩ := ih h
        refine ⟨b :: front, rfl, fun more => ?_⟩
        rw [List.cons_append, findIn, hs]
        exact hfront more
      | ended found =>
        cases h
        refine ⟨[b], rfl, fun more => ?_⟩
        rw [List.singleton_append, findIn, hs]

/-- The first start tag is found in what stands in front of the unread input. -/
theorem find_front {input tag rest : List UInt8} (h : find input = .ok (some (tag, rest))) :
    ∃ front, input = front ++ rest ∧ ∀ more, find (front ++ more) = .ok (some (tag, more)) :=
  findIn_front h

/-! ## Parts of a tag -/

/-- The bytes of a tag without the slash of a tag that is its own end. -/
def withoutSlash (tag : List UInt8) : List UInt8 :=
  if tag.getLast? = some (byte '/') then tag.dropLast else tag

/-- The part of a tag behind the element's name, which ends at the first blank. -/
def attributePart (tag : List UInt8) : List UInt8 :=
  (withoutSlash tag).dropWhile fun b => !isBlank b

end StartTag
end Xml
end DualInit
