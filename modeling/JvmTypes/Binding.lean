import JvmTypes.Store
import JvmTypes.Substitution
/-!
# Bindings

The arguments that an applied class, and the applied classes around it, give to the variables they
declare. Outside of an argument position a wildcard collapses to its upper bound, or to the root
class if it is bounded from below, so that the result always has an erasure.
-/
namespace JvmTypes

/-- Arguments by declaring class and symbol. Of two entries for one variable the later one
counts. -/
structure Binding where
  entries : List ((ClassId × String) × Shape)

namespace Binding

def entriesOf (s : Store) (raw : ClassId) (arguments : List Shape) :
    List ((ClassId × String) × Shape) :=
  ((s.get raw).typeVariables.zip arguments).map fun (v, a) => ((raw, v.symbol), a)

def collect (s : Store) : Shape → List ((ClassId × String) × Shape)
  | .applied raw as none => entriesOf s raw as
  | .applied raw as (some owner) => entriesOf s raw as ++ collect s owner
  | _ => []

def ofShape (s : Store) (shape : Shape) : Binding := ⟨collect s shape⟩

def isEmpty (b : Binding) : Bool := b.entries.isEmpty

def get? (b : Binding) (id : ClassId) (symbol : String) : Option Shape :=
  (b.entries.reverse.find? (·.1 = (id, symbol))).map (·.2)

/-- The argument for a reference. Only variables of classes are ever bound. -/
def lookup? (b : Binding) (v : TypeVariable) : Option Shape :=
  match v.source with
  | .type id => b.get? id v.symbol
  | .method | .detached => none

/-- What stands for an argument outside of an argument position. -/
def collapse : Shape → Shape
  | .upper bound => bound
  | .lower _ => .object
  | s => s

def toSubstitution (b : Binding) : Substitution where
  var v := ((b.lookup? v).map collapse).getD (.variable v)
  argument v := (b.lookup? v).getD (.variable v)

end Binding

end JvmTypes
