import JvmTypes.Shape
/-!
# Substitutions

A substitution says what becomes of a variable, of a plain type and of a class that is applied to
arguments; every other part of a shape is rebuilt from its parts. A variable that is itself a type
argument, the one place where a wildcard may stand, has a rule of its own.
-/
namespace JvmTypes

structure Substitution where
  var : TypeVariable → Shape
  argument : TypeVariable → Shape := var
  erased : Erased → Shape := .plain
  raw : ClassId → ClassId := id

mutual

def Shape.subst (σ : Substitution) : Shape → Shape
  | .plain e => σ.erased e
  | .array c => .arrayOf (c.subst σ)
  | .applied raw as o => .applied (σ.raw raw) (Shape.substArguments σ as) (Shape.substOwner σ o)
  | .upper b => .upper (b.subst σ)
  | .lower b => .lower (b.subst σ)
  | .variable v => σ.var v

def Shape.substArguments (σ : Substitution) : List Shape → List Shape
  | [] => []
  | .variable v :: as => σ.argument v :: Shape.substArguments σ as
  | a :: as => a.subst σ :: Shape.substArguments σ as

def Shape.substOwner (σ : Substitution) : Option Shape → Option Shape
  | none => none
  | some o => some (o.subst σ)

end

namespace Substitution

def onArgument (σ : Substitution) : Shape → Shape
  | .variable v => σ.argument v
  | s => s.subst σ

end Substitution

theorem Shape.substArguments_eq_map (σ : Substitution) (as : List Shape) :
    Shape.substArguments σ as = as.map σ.onArgument := by
  induction as with
  | nil => simp [Shape.substArguments]
  | cons a as ih => cases a <;> simp [Shape.substArguments, Substitution.onArgument, ih]

theorem Shape.substOwner_eq_map (σ : Substitution) (o : Option Shape) :
    Shape.substOwner σ o = o.map (Shape.subst σ) := by
  cases o <;> simp [Shape.substOwner]

/-- Every occurrence of the class `a` becomes `b`; variables are replaced as `σ` says, whatever
their source. -/
def Substitution.renaming (a b : ClassId) (σ : TypeVariable → Shape) : Substitution where
  var := σ
  erased e := .plain (e.replaceClass a b)
  raw id := if id = a then b else id

end JvmTypes
