import JvmTypes.Scope
/-!
# Detaching and attaching shapes

A detached shape refers to no declaration: its variables are symbols or erased, and the class it was
declared in may be replaced with a stand-in. Attaching resolves the symbols in a new context and
puts a class in place of the stand-in.
-/
namespace JvmTypes

namespace Substitution

/-- Detaches a shape: a variable that `erase` accepts becomes its erasure, any other a symbol.
References to `retarget` become the stand-in. What is detached already stays as it is. -/
def detaching (erase : TypeVariable → Bool) (retarget : Option ClassId) : Substitution :=
  let erased (e : Erased) : Erased := (retarget.map fun id => e.replaceClass id .target).getD e
  { var := fun v =>
      if v.isDetached then .variable v
      else if erase v then .plain (erased v.erasure)
      else .variable ⟨v.symbol, .detached, erased v.erasure⟩
    erased := fun e => .plain (erased e)
    raw := fun id => if retarget = some id then .target else id }

/-- Attaches a detached shape to the class `declaring`. Symbols that `resolve` does not know stay
detached. -/
def attaching (resolve : String → Option Shape) (declaring : ClassId) : Substitution where
  var v := if v.isDetached then (resolve v.symbol).getD (.variable v) else .variable v
  erased e := .plain (e.replaceClass .target declaring)
  raw id := if id = .target then declaring else id

def attachingIn (scope : Scope) (declaring : ClassId) : Substitution :=
  attaching (fun symbol => (scope symbol).map .variable) declaring

end Substitution

namespace Shape

mutual

def detachedSymbols : Shape → List String
  | .plain _ => []
  | .array c => c.detachedSymbols
  | .applied _ as none => detachedArguments as
  | .applied _ as (some o) => o.detachedSymbols ++ detachedArguments as
  | .upper b | .lower b => b.detachedSymbols
  | .variable v => if v.isDetached then [v.symbol] else []

def detachedArguments : List Shape → List String
  | [] => []
  | a :: as => a.detachedSymbols ++ detachedArguments as

end

end Shape

end JvmTypes
