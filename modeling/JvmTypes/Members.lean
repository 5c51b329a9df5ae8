import JvmTypes.Field
import JvmTypes.Hierarchy
import JvmTypes.Method
/-!
# Members

The fields and methods that a type declares, seen through its arguments.
-/
namespace JvmTypes.Shape

def fields (s : Store) (t : Shape) : Except ShapeError (List Field) := do
  match ← t.outline s .fields with
  | .ofClass id binding =>
    let declared := (s.get id).fields.map (Field.ofDecl id)
    match binding with
    | some b => .ok (declared.map fun f => f.through t b.toSubstitution)
    | none => .ok declared
  | .array | .empty => .ok []

def methods (s : Store) (t : Shape) : Except ShapeError (List Method) := do
  match ← t.outline s .methods with
  | .ofClass id binding =>
    let declared := Method.declaredBy s id
    match binding with
    | some b => .ok (declared.map fun m => m.through t b.toSubstitution)
    | none => .ok declared
  | .array | .empty => .ok []

end JvmTypes.Shape
