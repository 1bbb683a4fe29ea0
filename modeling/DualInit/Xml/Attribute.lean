import DualInit.Xml.Fault
import DualInit.Xml.Reader

/-!
# Attributes of a start tag

An attribute is a name, an equals sign and a value in quotes, with blanks allowed around the
sign.  A name is whatever stands in front of the sign or a blank, but at least one byte, which
may itself be an equals sign.  Attributes need no blanks between them.

Reading ends at the first fault.  What was read before it still counts for the bindings of
namespaces, so `Attribute.read` answers both the attributes and the fault.  Names that are used twice
are no fault there, only when the attributes are handed out one by one (`Attribute.report`).
-/

namespace DualInit
namespace Xml

namespace Attribute

/-- Where in the attributes a reader is; bytes read so far are listed last one first. -/
inductive Mode where
  | gap
  | key (read : List UInt8)
  /-- Behind a name and a blank. -/
  | afterKey (key : List UInt8)
  /-- Behind the equals sign. -/
  | equals (key : List UInt8)
  /-- In a value that ends at the quote. -/
  | value (key : List UInt8) (quote : UInt8) (read : List UInt8)
deriving DecidableEq, Repr, Inhabited

/-- Reads on in a mode: the attributes up to the first fault, and the fault if there is one. -/
def readIn : Mode → List UInt8 → List Attribute × Option Fault
  | .gap, [] => ([], none)
  | _, [] => ([], some .malformedAttribute)
  | .gap, b :: rest => if isBlank b then readIn .gap rest else readIn (.key [b]) rest
  | .key read, b :: rest =>
    if b = byte '=' then readIn (.equals read.reverse) rest
    else if isBlank b then readIn (.afterKey read.reverse) rest
    else readIn (.key (b :: read)) rest
  | .afterKey key, b :: rest =>
    if b = byte '=' then readIn (.equals key) rest
    else if isBlank b then readIn (.afterKey key) rest
    else ([], some .malformedAttribute)
  | .equals key, b :: rest =>
    if b = byte '"' ∨ b = byte '\'' then readIn (.value key b []) rest
    else if isBlank b then readIn (.equals key) rest
    else ([], some .malformedAttribute)
  | .value key quote read, b :: rest =>
    if b = quote then
      let (attributes, fault) := readIn .gap rest
      (⟨key, read.reverse⟩ :: attributes, fault)
    else readIn (.value key quote (b :: read)) rest

/-- The attributes up to the first fault, and the fault if there is one. -/
def read (part : List UInt8) : List Attribute × Option Fault :=
  readIn .gap part

/-- Attributes one by one, with a fault in the place of each whose name was `seen` before. -/
def withoutDuplicates : (seen : List (List UInt8)) → List Attribute → List (Except Fault Attribute)
  | _, [] => []
  | seen, a :: rest =>
    (if a.key ∈ seen then .error .duplicateAttribute else .ok a) ::
      withoutDuplicates (a.key :: seen) rest

/-- The attributes one by one, up to the first that cannot be read. -/
def report (part : List UInt8) : List (Except Fault Attribute) :=
  let (attributes, fault) := read part
  withoutDuplicates [] attributes ++ fault.toList.map .error

/-- The prefix of a name, if it has one, and its local part: the first colon divides them. -/
def splitKey (key : List UInt8) : Option (List UInt8) × List UInt8 :=
  match key.dropWhile (· != byte ':') with
  | [] => (none, key)
  | _ :: localPart => (some (key.takeWhile (· != byte ':')), localPart)

end Attribute
end Xml
end DualInit
