import JvmTypes.Erased
/-!
# Type shapes

A type as a declaration writes it. A reference to a type variable carries the erasure of the
variable, so the erasure of a shape needs no look-up; only a wildcard has none. The unbounded
wildcard is the one bounded from above by the root class.
-/
namespace JvmTypes

inductive VariableSource where
  | type (id : ClassId)
  /-- The method in whose declaration the reference stands. -/
  | method
  /-- A symbolic reference, bound to no declaration. -/
  | detached
  deriving DecidableEq

structure TypeVariable where
  symbol : String
  source : VariableSource
  erasure : Erased
  deriving DecidableEq

def TypeVariable.isDetached (v : TypeVariable) : Bool := v.source = .detached

inductive Shape where
  | plain (type : Erased)
  /-- An array of a component that is not plain, see `Shape.arrayOf`. -/
  | array (component : Shape)
  /-- A class applied to arguments, inside the type `owner` if it is a member of an applied
  class. -/
  | applied (raw : ClassId) (arguments : List Shape) (owner : Option Shape)
  | upper (bound : Shape)
  | lower (bound : Shape)
  | variable (reference : TypeVariable)

inductive ShapeKind where
  | nonGeneric | genericArray | parameterized | wildcard | typeVariable
  deriving DecidableEq

def ShapeKind.text : ShapeKind → String
  | .nonGeneric => "non-generic"
  | .genericArray => "generic array"
  | .parameterized => "parameterized"
  | .wildcard => "wildcard"
  | .typeVariable => "type variable"

namespace Shape

def void : Shape := .plain .void

def ofClass (id : ClassId) : Shape := .plain (.cls id)

def object : Shape := .ofClass .object

/-- The array of a shape; an array of a plain type is plain. -/
def arrayOf : Shape → Shape
  | .plain e => .plain (.array e)
  | s => .array s

def unbounded : Shape := .upper object

def kind : Shape → ShapeKind
  | .plain _ => .nonGeneric
  | .array _ => .genericArray
  | .applied .. => .parameterized
  | .upper _ | .lower _ => .wildcard
  | .variable _ => .typeVariable

def isGeneric (s : Shape) : Bool := s.kind ≠ .nonGeneric

/-- The raw projection; none for a wildcard and for arrays of one. -/
def erasure? : Shape → Option Erased
  | .plain e => some e
  | .array c => c.erasure?.map .array
  | .applied raw _ _ => some (.cls raw)
  | .upper _ | .lower _ => none
  | .variable v => some v.erasure

def component? : Shape → Option Shape
  | .array c => some c
  | .plain (.array e) => some (.plain e)
  | _ => none

def symbol? : Shape → Option String
  | .variable v => some v.symbol
  | _ => none

def arguments : Shape → List Shape
  | .applied _ as _ => as
  | _ => []

def owner? : Shape → Option Shape
  | .applied _ _ o => o
  | _ => none

def isUnbounded : Shape → Bool
  | .upper (.plain e) => e = .object
  | _ => false

mutual

def decEq : (a b : Shape) → Decidable (a = b)
  | .plain e, .plain e' =>
    if h : e = e' then isTrue (by rw [h]) else isFalse (by simpa using h)
  | .array c, .array c' =>
    match decEq c c' with
    | isTrue h => isTrue (by rw [h])
    | isFalse h => isFalse (by simpa using h)
  | .applied r as o, .applied r' as' o' =>
    if hr : r = r' then
      match decEqList as as', decEqOption o o' with
      | isTrue ha, isTrue ho => isTrue (by rw [hr, ha, ho])
      | isFalse ha, _ => isFalse (by simp [ha])
      | _, isFalse ho => isFalse (by simp [ho])
    else isFalse (by simp [hr])
  | .upper b, .upper b' =>
    match decEq b b' with
    | isTrue h => isTrue (by rw [h])
    | isFalse h => isFalse (by simpa using h)
  | .lower b, .lower b' =>
    match decEq b b' with
    | isTrue h => isTrue (by rw [h])
    | isFalse h => isFalse (by simpa using h)
  | .variable v, .variable v' =>
    if h : v = v' then isTrue (by rw [h]) else isFalse (by simpa using h)
  | .plain _, .array _ | .plain _, .applied .. | .plain _, .upper _ | .plain _, .lower _
  | .plain _, .variable _
  | .array _, .plain _ | .array _, .applied .. | .array _, .upper _ | .array _, .lower _
  | .array _, .variable _
  | .applied .., .plain _ | .applied .., .array _ | .applied .., .upper _ | .applied .., .lower _
  | .applied .., .variable _
  | .upper _, .plain _ | .upper _, .array _ | .upper _, .applied .. | .upper _, .lower _
  | .upper _, .variable _
  | .lower _, .plain _ | .lower _, .array _ | .lower _, .applied .. | .lower _, .upper _
  | .lower _, .variable _
  | .variable _, .plain _ | .variable _, .array _ | .variable _, .applied .. | .variable _, .upper _
  | .variable _, .lower _ => isFalse (by simp)

def decEqList : (as bs : List Shape) → Decidable (as = bs)
  | [], [] => isTrue rfl
  | a :: as, b :: bs =>
    match decEq a b, decEqList as bs with
    | isTrue h, isTrue h' => isTrue (by rw [h, h'])
    | isFalse h, _ => isFalse (by simp [h])
    | _, isFalse h => isFalse (by simp [h])
  | [], _ :: _ | _ :: _, [] => isFalse (by simp)

def decEqOption : (a b : Option Shape) → Decidable (a = b)
  | none, none => isTrue rfl
  | some a, some b =>
    match decEq a b with
    | isTrue h => isTrue (by rw [h])
    | isFalse h => isFalse (by simpa using h)
  | none, some _ | some _, none => isFalse (by simp)

end

instance : DecidableEq Shape := decEq

end Shape

end JvmTypes
