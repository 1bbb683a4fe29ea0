import DualInit.Il.Instruction
import DualInit.Path
import DualInit.Symbol.Format

/-!
# What can go wrong

Errors are causes: each constructor holds the data that decided against the request, and the
wording is in the functions `message` alone.  Three families have many causes of their own:
bodies whose structure is unsound (`Malformation`), branches (`BranchFault`), and base types
that cannot be constructed (`MissingBase`).
-/

namespace DualInit

/-- Why a body is unsound. -/
inductive Malformation where
  | argumentOutOfRange (index : Nat)
  | emptySequence
  /-- The last instruction would run on past the end. -/
  | fallsThrough (last : OpCode)
  /-- The stack is as deep as `fallThrough` coming from above, as `branch` at a branch to here. -/
  | mergeMismatch (position : Position) (fallThrough branch : Int)
  /-- More values are taken than the stack holds; `depth` is what would be left. -/
  | underflow (position : Position) (instruction : Instruction) (depth : Int)
  | inconsistentTarget (position : Position) (existing found : Int)
  /-- A method returns and leaves values behind. -/
  | unbalancedReturn (position : Position) (left : Int)
  | stackTooDeep
  | bodyTooLarge
  /-- A call takes more values than a call site can say. -/
  | tooManyParameters (method : Token)
deriving DecidableEq, Repr

/-- Why a branch or a label is refused. -/
inductive BranchFault where
  | notABranch (opcode : OpCode)
  | unknownLabel (label : Label)
  /-- A label is to stand for an instruction that does not exist. -/
  | missingTarget (label : Label) (target : Position)
  /-- The target does not lie behind the branch. -/
  | notForward (opcode : OpCode) (position target : Position)
  /-- The target of an instruction in a sequence does not lie behind it and inside. -/
  | noValidTarget (instruction : Instruction) (position : Position)
  /-- The displacement does not fit the form of the branch. -/
  | tooFar (displacement : Int) (form : OpCode)
deriving DecidableEq, Repr

/-- What the operand of an operation should have been. -/
inductive ExpectedOperand where
  | label
  | callSite
  | ofType (type : OperandType)
deriving DecidableEq, Repr

/-- Why a type has no base constructor to call. -/
inductive MissingBase where
  | noBase
  /-- The base type has no instance constructor without parameters. -/
  | noConstructor (name : String)
  /-- The base type is constructed, such as an instantiated generic type. -/
  | constructedType (base : Token)
  /-- The base type's token does not name a type. -/
  | foreignTable (base : Token)
deriving DecidableEq, Repr

/-- Why a request is refused. -/
inductive Error where
  | malformed (cause : Malformation)
  | assemblyNotStored (path : Path)
  | assemblyLocked (path : Path)
  | referenceNotFound (scope : String)
  | symbolsNotFound (path : Path) (format : SymbolFormat)
  | symbolFormatUnsupported (format : SymbolFormat)
  /-- The base type of a class cannot be constructed without arguments. -/
  | baseConstructorNotFound (typeName : String) (cause : MissingBase)
  | typeNotFound (token : Token)
  | methodNotFound (token : Token)
  /-- The type owns a method with this token already. -/
  | duplicateMethod (token : Token)
  | invalidBranch (cause : BranchFault)
  | unboundLabel (label : Label)
  /-- A label is to stand for a second instruction. -/
  | duplicateLabel (label : Label)
  | unexpectedOperand
  | wrongOperand (expected : ExpectedOperand) (actual : OperandKind)
  | unknownSymbolFormat (name : String)
  /-- Storage could not be reached. -/
  | lockFailed
deriving DecidableEq, Repr

/-! ## Wording -/

/-- The wording of a malformation. -/
def Malformation.message : Malformation → String
  | argumentOutOfRange index => "Argument index " ++ toString index ++ " out of range"
  | emptySequence => "Empty instruction sequence"
  | fallsThrough last => "Sequence ends with '" ++ last.mnemonic ++ "' and can fall through"
  | mergeMismatch position fallThrough branch =>
    "Stack depth mismatch at " ++ toString position ++ ": " ++ toString fallThrough ++
      " on fall-through, " ++ toString branch ++ " on branch"
  | underflow position instruction depth =>
    "Stack underflow at " ++ toString position ++ " (" ++ instruction.text ++ "): depth became " ++
      toString depth
  | inconsistentTarget position existing found =>
    "Inconsistent stack depth at " ++ toString position ++ ": " ++ toString existing ++ " and " ++
      toString found
  | unbalancedReturn position left =>
    "Stack not empty at ret " ++ toString position ++ ": " ++ toString left ++ " items left"
  | stackTooDeep => "Stack depth exceeds u16 range"
  | bodyTooLarge => "Method body size exceeds u32 range"
  | tooManyParameters method => "Too many parameters on " ++ method.text

/-- The wording of a fault of a branch or a label. -/
def BranchFault.message : BranchFault → String
  | notABranch opcode => opcode.mnemonic ++ " is not a branch instruction"
  | unknownLabel label => toString label ++ " was not created by this builder"
  | missingTarget label target =>
    toString label ++ " bound to " ++ toString target ++ " which was never emitted"
  | notForward opcode position target =>
    opcode.mnemonic ++ " at " ++ toString position ++ " targets " ++ toString target ++
      "; only forward branches are allowed"
  | noValidTarget instruction position =>
    instruction.text ++ " at " ++ toString position ++ " has no valid target"
  | tooFar displacement form =>
    "displacement " ++ toString displacement ++ " does not fit " ++ form.mnemonic

/-- How an expected operand is named. -/
def ExpectedOperand.name : ExpectedOperand → String
  | label => "label"
  | callSite => OperandKind.callSite.name
  | ofType type => type.name

/-- How a base type that cannot be constructed is named. -/
def MissingBase.name : MissingBase → String
  | noBase => "<none>"
  | noConstructor name => name
  | constructedType base => base.text ++ " (generic instantiation, not supported)"
  | foreignTable base => base.text ++ " (unsupported table 0x" ++ Hex.upper 2 base.table ++ ")"

/-- The wording of an error. -/
def Error.message : Error → String
  | malformed cause => "Malformed - " ++ cause.message
  | assemblyNotStored path => "Module not found - " ++ path.text
  | assemblyLocked path => "Module is locked by another writer - " ++ path.text
  | referenceNotFound scope => "Failed to resolve assembly '" ++ scope ++ "'"
  | symbolsNotFound path format => "No " ++ format.name ++ " symbols available for " ++ path.text
  | symbolFormatUnsupported format => "Symbol format " ++ format.name ++ " is not supported"
  | baseConstructorNotFound typeName cause =>
    "Base type '" ++ cause.name ++ "' of '" ++ typeName ++ "' has no parameterless constructor"
  | typeNotFound token => "Failed to find type - " ++ token.text
  | methodNotFound token => "Failed to find method - " ++ token.text
  | duplicateMethod token => "Method " ++ token.text ++ " is already defined on this type"
  | invalidBranch cause => "Invalid branch - " ++ cause.message
  | unboundLabel label => "Label " ++ toString label ++ " was never bound"
  | duplicateLabel label => "Label " ++ toString label ++ " is already bound"
  | unexpectedOperand => "Unexpected operand"
  | wrongOperand expected actual =>
    "Wrong operand type - expected " ++ expected.name ++ ", got " ++ actual.name
  | unknownSymbolFormat name => "Invalid configuration - unknown symbol format '" ++ name ++ "'"
  | lockFailed => "Failed to lock target"

end DualInit
