import DualInit.Metadata.Section

/-!
# Growth of a section

A section grows by new rows: types, methods and references.  A request for a row is a value
here, so that whole histories of requests can be spoken of; what a request answers is the token
of a row, new or used again, and a request that fails leaves the section as it was.
-/

namespace DualInit

/-- A request for a row. -/
inductive RowRequest where
  | type (spaceName name : String) (extends? : Option Token)
  | nestedType (enclosing : Token) (name : String) (extends? : Option Token)
  | typeRef (scope spaceName name : String)
  | method (owner : Token) (method : MethodDef)
  | memberRef (parent : Token) (name : String) (signature : Signature)
deriving DecidableEq, Repr

namespace RowRequest

/-- Carries out a request. -/
def perform : RowRequest → Section → Except Error (Token × Section)
  | type spaceName name extends?, s => .ok (s.defineType spaceName name extends?)
  | nestedType enclosing name extends?, s => s.defineNestedType enclosing name extends?
  | typeRef scope spaceName name, s => .ok (s.addTypeRef scope spaceName name)
  | method owner m, s => s.addMethod owner m
  | memberRef parent name signature, s => .ok (s.importMethod parent name signature)

/-- The section after a request; after a failure, the same one. -/
def after (s : Section) (r : RowRequest) : Section :=
  match r.perform s with
  | .ok (_, grown) => grown
  | .error _ => s

end RowRequest

/-- The section after a history of requests. -/
def Section.grown (s : Section) (history : List RowRequest) : Section :=
  history.foldl RowRequest.after s

/-- What the requests of a history answer, in order. -/
def Section.answers (s : Section) : List RowRequest → List (Except Error Token)
  | [] => []
  | r :: history => (r.perform s).map Prod.fst :: (r.after s).answers history

end DualInit
