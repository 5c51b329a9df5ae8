import JvmTypes.Assignability
import JvmTypes.Method
/-!
# Default values of annotation properties
-/
namespace JvmTypes

mutual

/-- The value can be the default of a property of this type. -/
def ElementValue.fits (s : Store) : ElementValue → Erased → Bool
  | .constant c, .primitive b =>
    match b, c with
    | .boolean, .boolean _ | .byte, .byte _ | .char, .char _ | .short, .short _ | .int,
        .int _ | .long, .long _
    | .float, .float _ | .double, .double _ => true
    | _, _ => false
  | .constant (.string _), .cls id => id = .string
  | .enum .., t => Erased.isAssignable s (.cls .enum) t
  | .nested _, t => Erased.isAssignable s (.cls .annotationType) t
  | .classLiteral _, t => t = .cls .classLiteral
  | .array values, .array c => ElementValue.allFit s values c
  | _, _ => false

def ElementValue.allFit (s : Store) : List ElementValue → Erased → Bool
  | [], _ => true
  | v :: vs, t => v.fits s t && ElementValue.allFit s vs t

end

namespace Method

def isProperty (s : Store) (m : Method) : Except ShapeError Bool :=
  if m.isConstructor || m.flags.isStatic then .ok false
  else do
    let r ← m.returnType.erasure
    .ok (r.isAnnotationReturn s && m.decl.parameters.isEmpty)

def acceptsDefault (s : Store) (m : Method) (value : ElementValue) : Except ShapeError Bool := do
  if ← m.isProperty s then do
    let r ← m.returnType.erasure
    .ok (value.fits s r)
  else .ok false

end Method

end JvmTypes
