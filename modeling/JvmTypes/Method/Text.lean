import JvmTypes.Method
import JvmTypes.Naming
import JvmTypes.Signature.OfShape
/-!
# Texts of a method

Descriptor, generic signature and the renderings of a method.
-/
namespace JvmTypes.Method

open Signature

def descriptor (s : Store) (m : Method) : Except ShapeError String := do
  let ps ← Shape.erasures m.parameterTypes
  let r ← m.returnType.erasure
  .ok ("(" ++ String.join (ps.map (Erased.descriptor s)) ++ ")" ++ r.descriptor s)

def isGeneric (m : Method) : Bool :=
  !m.typeVariables.isEmpty || m.parameterTypes.any Shape.isGeneric || m.returnType.isGeneric ||
    m.exceptions.any Shape.isGeneric

/-- The exceptions are part of a signature only if one of them is generic. -/
def signature (s : Store) (m : Method) : Except Unwritable MethodSignature := do
  let typeParameters ← m.typeVariables.mapM (TypeVarDecl.parameter s)
  let parameters ← m.parameterTypes.mapM (Shape.signature s)
  let returnType ←
    if m.returnType = .void then .ok none else (m.returnType.signature s).map some
  let throws ←
    if m.exceptions.any Shape.isGeneric then m.exceptions.mapM (Shape.signature s) else .ok []
  .ok ⟨typeParameters, parameters, returnType, throws⟩

def signatureText? (s : Store) (m : Method) : Option String :=
  if m.isGeneric then (m.signature s).toOption.map MethodSignature.text else none

def name (s : Store) (m : Method) : String :=
  if m.isOrdinary then m.internalName else s.name m.owner

/-- The name as in source code, where constructors and type initializers have none. -/
def sourceName (m : Method) : String := if m.isOrdinary then m.internalName else ""

def represents (s : Store) (m : Method) (internalName descriptor : String) :
    Except ShapeError Bool :=
  if m.internalName = internalName then do
    let d ← m.descriptor s
    .ok (d = descriptor)
  else .ok false

/-- Modifiers for an implementation of the method, or for an abstract declaration of it. -/
def adjustedFlags (m : Method) (implemented : Bool) : AccessFlags :=
  if implemented then m.flags.clear (AccessFlags.abstractBit ||| AccessFlags.nativeBit)
  else (m.flags.clear AccessFlags.nativeBit).set AccessFlags.abstractBit

def modifierText (m : Method) : String := (m.flags.keep AccessFlags.sourceMethodMask).keywordsBefore

def tailText (m : Method) (parameters exceptions : List String) : String :=
  (if m.isOrdinary then "." ++ m.internalName else "") ++
    "(" ++ ",".intercalate parameters ++ ")" ++
    (if exceptions = [] then "" else " throws " ++ ",".intercalate exceptions)

def genericText (s : Store) (m : Method) : String :=
  m.modifierText ++ (if m.isOrdinary then m.returnType.typeName s ++ " " else "") ++
    m.declaringType.typeName s ++
    m.tailText (m.parameterTypes.map (Shape.typeName s)) (m.exceptions.map (Shape.typeName s))

def text (s : Store) (m : Method) : Except ShapeError String := do
  let r ← if m.isOrdinary then do
      let r ← m.returnType.erasure
      .ok (r.name s ++ " ")
    else .ok ""
  let ps ← Shape.erasures m.parameterTypes
  let es ← Shape.erasures m.exceptions
  .ok (m.modifierText ++ r ++ s.name m.owner ++
    m.tailText (ps.map (Erased.name s)) (es.map (Erased.name s)))

def display (s : Store) (m : Method) : Except ShapeError String := do
  let d ← m.descriptor s
  .ok (Text.record "MethodDescription"
    [("declaring_type", Text.quoted (m.declaringType.typeName s)),
      ("internal_name", Text.quoted m.internalName), ("descriptor", Text.quoted d),
      ("defined", if m.isDeclared then "true" else "false")])

end JvmTypes.Method
