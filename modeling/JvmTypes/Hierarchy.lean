import JvmTypes.Binding
import JvmTypes.ShapeError
/-!
# Super types

The declared super types of a class, with the arguments of an applied class bound in them. Arrays
have fixed super types, `void` and primitives have none, and to ask a wildcard or a variable is an
error.
-/
namespace JvmTypes

/-- What the members and super types of a shape come from. -/
inductive Outline where
  | ofClass (id : ClassId) (binding : Option Binding)
  | array
  | empty

namespace Shape

def outline? (s : Store) (t : Shape) : Option Outline :=
  match t with
  | .plain (.cls id) => some (.ofClass id none)
  | .plain (.array _) | .array _ => some .array
  | .plain .void | .plain (.primitive _) => some .empty
  | .applied raw _ _ => some (.ofClass raw (some (.ofShape s t)))
  | .upper _ | .lower _ | .variable _ => none

def outline (s : Store) (t : Shape) (q : Query) : Except ShapeError Outline :=
  match t.outline? s with
  | some o => .ok o
  | none => .error (.unsupported q t.kind)

def seenThrough (binding : Option Binding) (t : Shape) : Shape :=
  match binding with
  | some b => t.subst b.toSubstitution
  | none => t

def supertype (s : Store) (t : Shape) : Except ShapeError (Option Shape) := do
  match ← t.outline s .supertype with
  | .ofClass id binding => .ok ((s.get id).superclass.map (seenThrough binding))
  | .array => .ok (some .object)
  | .empty => .ok none

def interfaces (s : Store) (t : Shape) : Except ShapeError (List Shape) := do
  match ← t.outline s .interfaces with
  | .ofClass id binding => .ok ((s.get id).interfaces.map (seenThrough binding))
  | .array => .ok [.ofClass .cloneable, .ofClass .serializable]
  | .empty => .ok []

def parent? (s : Store) (t : Shape) : Option Shape := (t.supertype s).toOption.join

/-- The first `n` types of the chain that starts with the type itself and goes on with super
types. -/
def hierarchy (s : Store) : Nat → Shape → List Shape
  | 0, _ => []
  | n + 1, t => t :: ((t.parent? s).map (hierarchy s n)).getD []

end Shape

def ShapeKind.hasHierarchy (k : ShapeKind) : Bool := k ≠ .wildcard && k ≠ .typeVariable

end JvmTypes
