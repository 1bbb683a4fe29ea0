import DualInit.Edit

/-!
# Reports

What a successful run has found, section by section and resource by resource, and what has
become of the symbols.  The counts and lists of a report are read off the findings, so they
agree with each other.
-/

namespace DualInit

/-- A resource that did not lead to an equipped class. -/
structure Skip where
  sectionName : String
  resource : String
  className : Option String
  reason : SkipReason
deriving DecidableEq, Repr, Inhabited

/-- A class that has a flag constructor now. -/
structure EquippedType where
  sectionName : String
  typeName : String
  precompiled : Token
  /-- The initializer that interprets the page. -/
  runtime : Token
  flagConstructor : Token
  /-- The initializer was split in this run. -/
  placeholderCreated : Bool
  /-- The flag constructor was added in this run. -/
  constructorCreated : Bool
deriving DecidableEq, Repr, Inhabited

/-- What came of a resource. -/
inductive Finding where
  | skipped (skip : Skip)
  | equipped (type : EquippedType)
deriving DecidableEq, Repr, Inhabited

/-- What has become of the symbols. -/
inductive SymbolOutcome where
  | notRequested
  | written (format : SymbolFormat)
  /-- The assembly was written, but they could not be. -/
  | degraded (format : SymbolFormat) (reason : Error)
deriving DecidableEq, Repr

/-- The result of a run. -/
structure Report where
  /-- What came of each resource of each section. -/
  findings : List (List Finding)
  symbols : SymbolOutcome
deriving DecidableEq, Repr

namespace Finding

/-- The resource that was passed over. -/
def skip? : Finding → Option Skip
  | skipped s => some s
  | equipped _ => none

/-- The class that was equipped. -/
def equipped? : Finding → Option EquippedType
  | skipped _ => none
  | equipped t => some t

/-- Whether the resource named a class, so that a type was looked for. -/
def namesClass : Finding → Bool
  | skipped s => s.className.isSome
  | equipped _ => true

end Finding

namespace Report

/-- What came of each resource, whatever its section. -/
def allFindings (r : Report) : List Finding :=
  r.findings.flatten

/-- How many resources were looked at. -/
def resourcesSeen (r : Report) : Nat :=
  r.allFindings.length

/-- How many types were looked for. -/
def typeLookups (r : Report) : Nat :=
  r.allFindings.countP (·.namesClass)

/-- The resources that were passed over, in order. -/
def skipped (r : Report) : List Skip :=
  r.allFindings.filterMap (·.skip?)

/-- The classes that were equipped, in order. -/
def equipped (r : Report) : List EquippedType :=
  r.allFindings.filterMap (·.equipped?)

end Report
end DualInit
