import DualInit.Xml.Fault

/-!
# Values as text

A value is UTF-8 text in which entities stand for characters: five have names, and any character
can be written by its number, decimal or hexadecimal.  An ampersand always begins an entity, and
the entity ends at the next semicolon.
-/

namespace DualInit
namespace Xml
namespace Entity

/-- The value of a digit in a base of at most 16. -/
def digit? (base : Nat) (c : Char) : Option Nat :=
  let n :=
    if '0' ≤ c ∧ c ≤ '9' then c.toNat - '0'.toNat
    else if 'a' ≤ c ∧ c ≤ 'f' then c.toNat - 'a'.toNat + 10
    else if 'A' ≤ c ∧ c ≤ 'F' then c.toNat - 'A'.toNat + 10
    else base
  if n < base then some n else none

/-- The number that digits stand for, read on from a number read so far. -/
def numberFrom (base : Nat) : (sofar : Nat) → List Char → Option Nat
  | sofar, [] => some sofar
  | sofar, c :: cs => do numberFrom base (sofar * base + (← digit? base c)) cs

/-- The character of a number that is written with one digit at least. -/
def numbered? (base : Nat) (digits : List Char) : Option Char :=
  if digits = [] then none
  else do
    let n ← numberFrom base 0 digits
    if n ≠ 0 ∧ n.isValidChar then some (Char.ofNat n) else none

/-- The character that an entity stands for. -/
def character? (entity : List Char) : Option Char :=
  match entity with
  | '#' :: 'x' :: digits => numbered? 16 digits
  | '#' :: digits => numbered? 10 digits
  | name =>
    match String.ofList name with
    | "lt" => some '<'
    | "gt" => some '>'
    | "amp" => some '&'
    | "apos" => some '\''
    | "quot" => some '"'
    | _ => none

/-- Puts characters in the place of entities; `entity` holds what was read of an entity so far,
the last character first. -/
def expandIn : (entity : Option (List Char)) → List Char → Except Fault (List Char)
  | none, [] => .ok []
  | some _, [] => .error .unknownEntity
  | none, c :: cs =>
    if c = '&' then expandIn (some []) cs
    else do return c :: (← expandIn none cs)
  | some read, c :: cs =>
    if c = '&' then .error .unknownEntity
    else if c = ';' then
      match character? read.reverse with
      | none => .error .unknownEntity
      | some named => do return named :: (← expandIn none cs)
    else expandIn (some (c :: read)) cs

/-- Puts characters in the place of entities. -/
def expand (cs : List Char) : Except Fault (List Char) :=
  expandIn none cs

/-- The text of a value. -/
def text (value : List UInt8) : Except Fault String :=
  match String.fromUTF8? ⟨value.toArray⟩ with
  | none => .error .invalidText
  | some s => do return String.ofList (← expand s.toList)

end Entity
end Xml
end DualInit
