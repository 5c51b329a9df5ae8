import JvmTypes.Constant
import JvmTypes.Name
/-!
# Annotations

Annotations and the values of their elements. Equality is that of values, see `Constant.same`. The
internal name of the annotation type is not stored beside the descriptor but worked out from it.
-/
namespace JvmTypes

mutual

inductive ElementValue where
  | constant (value : Constant)
  | enum (descriptor name : String)
  | classLiteral (descriptor : String)
  | nested (value : Annotation)
  | array (values : List ElementValue)

inductive Annotation where
  | mk (descriptor : String) (elements : List (String × ElementValue))

end

mutual

def ElementValue.same : ElementValue → ElementValue → Bool
  | .constant a, .constant b => a.same b
  | .enum d n, .enum d' n' => d = d' && n = n'
  | .classLiteral d, .classLiteral d' => d = d'
  | .nested a, .nested b => a.same b
  | .array as, .array bs => ElementValue.sameList as bs
  | _, _ => false

def ElementValue.sameList : List ElementValue → List ElementValue → Bool
  | [], [] => true
  | a :: as, b :: bs => a.same b && ElementValue.sameList as bs
  | _, _ => false

def Annotation.same : Annotation → Annotation → Bool
  | .mk d es, .mk d' es' => d = d' && Annotation.sameElements es es'

def Annotation.sameElements : List (String × ElementValue) → List (String × ElementValue) → Bool
  | [], [] => true
  | (n, a) :: as, (n', b) :: bs => n = n' && a.same b && Annotation.sameElements as bs
  | _, _ => false

end

namespace Annotation

def descriptor : Annotation → String
  | .mk descriptor _ => descriptor

def elements : Annotation → List (String × ElementValue)
  | .mk _ elements => elements

/-- Internal name of the annotation type, if the descriptor is that of a class. -/
def internalName (a : Annotation) : Option String := Name.ofDescriptor? a.descriptor

def binaryName (a : Annotation) : Option String := a.internalName.map Name.toBinary

def element? (a : Annotation) (name : String) : Option ElementValue :=
  (a.elements.find? (·.1 = name)).map (·.2)

def sameAll : List Annotation → List Annotation → Bool
  | [], [] => true
  | a :: as, b :: bs => a.same b && sameAll as bs
  | _, _ => false

end Annotation

namespace ElementValue

def kind? : ElementValue → Option String
  | .constant c => some c.kind
  | _ => none

def sameOption : Option ElementValue → Option ElementValue → Bool
  | none, none => true
  | some a, some b => a.same b
  | _, _ => false

end ElementValue

end JvmTypes
