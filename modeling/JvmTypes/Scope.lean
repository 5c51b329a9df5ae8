import JvmTypes.Store
import JvmTypes.Substitution
/-!
# Scopes of type variables

The variables that a class body sees: its own, then those of the enclosing classes up to the first
static one. A scope yields references, each with the erasure of its declaration.
-/
namespace JvmTypes

abbrev Scope := String → Option TypeVariable

namespace Scope

def orElse (inner outer : Scope) : Scope := fun symbol => (inner symbol).or (outer symbol)

def ofDecls (source : VariableSource) (vars : List TypeVarDecl) : Scope := fun symbol =>
  (TypeVarDecl.find? symbol vars).map fun v => ⟨v.symbol, source, v.erasure⟩

def declaredBy (s : Store) (id : ClassId) : Scope := ofDecls (.type id) (s.get id).typeVariables

/-- The variables visible from `steps` classes, from `id` outwards. -/
def upTo (s : Store) : Nat → ClassId → Scope
  | 0, _ => fun _ => none
  | steps + 1, id =>
    (declaredBy s id).orElse fun symbol => (s.get id).enclosing.bind fun outer =>
      upTo s steps outer symbol

def ofClass (s : Store) (id : ClassId) : Scope := upTo s s.size id

end Scope

end JvmTypes
