import DualInit.Il.Encoding
import DualInit.Metadata.Assembly

/-!
# Images of assemblies

What is stored of an assembly: the assembly itself, its symbols apart from it, as symbol files
would be, and the bytes of the bodies that the last write has encoded.  Bodies are listed with
the last one in front, so that looking one up finds the last body of a method.
-/

namespace DualInit

/-- A stored assembly. -/
structure Image where
  assembly : Assembly
  symbols : List (Option SymbolTable)
  /-- The bodies as the last write has encoded them, by section and method; of several for one
  method the first one counts. -/
  bodies : List ((Nat × Token) × List UInt8)
  /-- How many times the assembly was written. -/
  writes : Nat
  /-- How many times the symbols were written. -/
  symbolWrites : Nat
  /-- No symbols are stored with the assembly itself. -/
  symbolFree : assembly.withoutSymbols = assembly
deriving DecidableEq, Repr

namespace Image

/-- The image of an assembly that was never written. -/
def ofAssembly (a : Assembly) : Image :=
  ⟨a.withoutSymbols, a.symbolTables, [], 0, 0, a.withoutSymbols_withoutSymbols⟩

instance : Inhabited Image := ⟨ofAssembly default⟩

/-- The image after an assembly with encoded bodies was written; symbols are not written with it. -/
def withAssembly (a : Assembly) (bodies : List ((Nat × Token) × List UInt8)) (i : Image) : Image :=
  { i with
    assembly := a.withoutSymbols
    bodies
    writes := i.writes + 1
    symbolFree := a.withoutSymbols_withoutSymbols }

/-- The bytes of a body as the last write has encoded it. -/
def methodBytes? (i : Image) (sectionIndex : Nat) (method : Token) : Option (List UInt8) :=
  i.bodies.lookup (sectionIndex, method)

end Image

/-- The bytes of a method's body, if it has one. -/
def MethodDef.encoded (m : MethodDef) : Except Error (Option (List UInt8)) :=
  match m.body with
  | none => .ok none
  | some body => do
    let encoded ← encode body.instructions m.signature.returnsValue
    return some (← encoded.methodBytes body.initLocals)

namespace Image

/-- The encoded bodies of methods in a section, after those encoded so far. -/
def encodeMethods (sectionIndex : Nat) :
    List MethodDef → (sofar : List ((Nat × Token) × List UInt8)) →
      Except Error (List ((Nat × Token) × List UInt8))
  | [], sofar => .ok sofar
  | m :: rest, sofar => do
    match ← m.encoded with
    | none => encodeMethods sectionIndex rest sofar
    | some bytes => encodeMethods sectionIndex rest (((sectionIndex, m.token), bytes) :: sofar)

/-- The encoded bodies of sections, counted from an index on, after those encoded so far. -/
def encodeSections :
    (index : Nat) → List Section → (sofar : List ((Nat × Token) × List UInt8)) →
      Except Error (List ((Nat × Token) × List UInt8))
  | _, [], sofar => .ok sofar
  | index, s :: rest, sofar => do
    encodeSections (index + 1) rest (← encodeMethods index s.methods sofar)

/-- The encoded bodies of an assembly, in the order of sections, types and methods; the last
one comes first. -/
def encodeBodies (a : Assembly) : Except Error (List ((Nat × Token) × List UInt8)) :=
  encodeSections 0 a.sections []

end Image

end DualInit
