import DualInit.Il.Builder
import DualInit.Page.BaseConstructor
import DualInit.Page.Initializers

/-!
# The flag constructor

An equipped class has a constructor whose only parameter is a flag.  It calls the constructor of
the base type and then one of the two initializers, the precompiled one if the flag is set:

    ldarg.0
    call      the base constructor
    nop
    ldarg.1
    brfalse   RUNTIME
    ldarg.0
    callvirt  the precompiled initializer
    br        END
    RUNTIME:
    ldarg.0
    callvirt  the run time initializer
    END:
    ret

A class that has such a constructor already keeps it, with its attributes and the name of its
parameter; only the body is replaced, and what the symbols said about the old body is hidden.
-/

namespace DualInit

/-- The name of the parameter of an added flag constructor. -/
def flagParameter : String := "useCompiledXaml"

/-- The flag constructor of a class. -/
structure FlagConstructor where
  /-- The constructor. -/
  token : Token
  /-- It was added just now. -/
  created : Bool
deriving DecidableEq, Repr, Inhabited

/-- The body that calls a base constructor and one of two initializers. -/
def dualDispatchBody (base : Token) (precompiled runtime : CallSite) : Except Error Sequence :=
  Build.sequence do
    let runtimePath ← Build.newLabel
    let endOfBody ← Build.newLabel
    let _ ← Build.emitLdarg 0
    let _ ← Build.emitInstanceCall .call base
    let _ ← Build.emit .nop
    let _ ← Build.emitLdarg 1
    let _ ← Build.branch .brfalse runtimePath
    let _ ← Build.emitLdarg 0
    let _ ← Build.emitCall .callvirt precompiled
    let _ ← Build.branch .br endOfBody
    let runtimeStart ← Build.emitLdarg 0
    let _ ← Build.emitCall .callvirt runtime
    let ret ← Build.emit .ret
    Build.bind runtimePath runtimeStart
    Build.bind endOfBody ret

/-- The call of a method that a type owns. -/
def callSite (s : Section) (type method : Token) : Except Error CallSite :=
  match (s.typeDef? type).bind (·.method? method) with
  | none => .error (.methodNotFound method)
  | some m =>
    if m.signature.callPops < 256 then
      .ok ⟨method, UInt8.ofNat m.signature.callPops, if m.signature.returnsValue then 1 else 0⟩
    else .error (.malformed (.tooManyParameters method))

/-- Whether a method is an instance constructor whose only parameter is a flag. -/
def MethodDef.isFlagConstructor (m : MethodDef) : Bool :=
  m.isInstanceConstructor && m.hasParams [.bool]

/-- The first flag constructor of a type. -/
def TypeDef.flagConstructor? (t : TypeDef) : Option MethodDef :=
  t.methods.find? (·.isFlagConstructor)

/-- The flag constructor that a class without one gets. -/
def newFlagConstructor (body : MethodBody) : MethodDef :=
  MethodDef.withParams [flagParameter]
    { token := .null
      name := constructorName
      flags := MethodFlags.instanceConstructor
      implFlags := 0
      signature := .instanceWithParams [.bool]
      params := []
      body := some body }

/-- Puts a body in the place of that of a type's flag constructor. -/
def replaceBody (t : TypeDef) (existing : MethodDef) (body : MethodBody) :
    Edit Section FlagConstructor := do
  let replaced := (t.method? existing.token).getD existing
  let param := (replaced.params.head?.map (·.name)).getD ""
  Edit.tell (.replacingBody t.name param)
  Edit.attemptChange
    (·.updateMethod t.token existing.token fun m => { m with body := some body })
  Edit.change (·.hideSymbols existing.token)
  return ⟨existing.token, false⟩

/-- Adds a flag constructor to a type. -/
def addFlagConstructor (t : TypeDef) (body : MethodBody) : Edit Section FlagConstructor := do
  Edit.tell (.addingConstructor t.name flagParameter)
  let token ← Edit.attempt (·.addMethod t.token (newFlagConstructor body))
  return ⟨token, true⟩

/-- Gives a type a flag constructor that dispatches between its initializers. -/
def ensureFlagConstructor (external : Resolver) (type : Token) (initializers : Initializers) :
    Edit Section FlagConstructor := do
  let base ← baseConstructor external type
  let s ← Edit.current
  let precompiled ← Edit.ofExcept (callSite s type initializers.precompiled)
  let runtime ← Edit.ofExcept (callSite s type initializers.runtime)
  let instructions ← Edit.ofExcept (dualDispatchBody base precompiled runtime)
  match s.typeDef? type with
  | none => Edit.fail (.typeNotFound type)
  | some t =>
    match t.flagConstructor? with
    | some existing => replaceBody t existing ⟨instructions, false⟩
    | none => addFlagConstructor t ⟨instructions, false⟩

end DualInit
