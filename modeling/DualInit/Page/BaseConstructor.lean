import DualInit.Storage.Codec

/-!
# Constructors of base types

A constructor begins by calling a constructor of the base type, one without parameters.  If the
section defines the base type itself, that is one of its methods.  If another assembly defines
it, the type is looked up there and its constructor is referred to.  Other bases, such as
instantiated generic types, cannot be constructed this way.
-/

namespace DualInit

/-- The token to call for the parameterless constructor of a type's base type. -/
def baseConstructor (external : Resolver) (type : Token) : Edit Section Token := do
  let s ← Edit.current
  match s.typeDef? type with
  | none => Edit.fail (.typeNotFound type)
  | some t =>
    let missing (cause : MissingBase) : Edit Section Token :=
      Edit.fail (.baseConstructorNotFound ((s.typeName type).getD t.qualifiedName) cause)
    match t.extends? with
    | none => missing .noBase
    | some base =>
      let baseName := (s.typeName base).getD base.text
      if base.table = Token.typeDefTable then
        match (s.typeDef? base).bind (·.parameterlessConstructor?) with
        | none => missing (.noConstructor baseName)
        | some constructor => return constructor.token
      else if base.table = Token.typeRefTable then
        match s.typeRef? base with
        | none => Edit.fail (.typeNotFound base)
        | some reference =>
          let found ← Edit.consult (external.resolve reference.scope reference.qualifiedName)
          match found.bind (·.parameterlessConstructor?) with
          | none => missing (.noConstructor baseName)
          | some constructor =>
            let (token, next) := s.importMethod base constructorName constructor.signature
            Edit.replace next
            Edit.tell (.imported baseName constructorName token)
            return token
      else if base.table = Token.typeSpecTable then missing (.constructedType base)
      else missing (.foreignTable base)

end DualInit
