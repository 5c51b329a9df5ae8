import JvmTypes.Proofs.Shape.Bounds
/-!
# Renamed classes

Declarations with every class in them replaced as a function on places says. Nothing else of them
changes.
-/
namespace JvmTypes

variable (ρ : ClassId → ClassId)

def Erased.rename : Erased → Erased
  | .void => .void
  | .primitive b => .primitive b
  | .cls id => .cls (ρ id)
  | .array c => .array c.rename

def VariableSource.rename : VariableSource → VariableSource
  | .type id => .type (ρ id)
  | .method => .method
  | .detached => .detached

def TypeVariable.rename (v : TypeVariable) : TypeVariable :=
  ⟨v.symbol, v.source.rename ρ, v.erasure.rename ρ⟩

mutual

def Shape.rename : Shape → Shape
  | .plain e => .plain (e.rename ρ)
  | .array c => .array c.rename
  | .applied raw as o => .applied (ρ raw) (Shape.renameArguments as) (Shape.renameOwner o)
  | .upper b => .upper b.rename
  | .lower b => .lower b.rename
  | .variable v => .variable (v.rename ρ)

def Shape.renameArguments : List Shape → List Shape
  | [] => []
  | a :: as => a.rename :: Shape.renameArguments as

def Shape.renameOwner : Option Shape → Option Shape
  | none => none
  | some o => some o.rename

end

def TypeVarDecl.rename : TypeVarDecl → TypeVarDecl := mapBounds (Shape.rename ρ)

def FieldDecl.rename (f : FieldDecl) : FieldDecl := { f with type := f.type.rename ρ }

def ParameterDecl.rename (p : ParameterDecl) : ParameterDecl := { p with type := p.type.rename ρ }

def MethodDecl.rename (m : MethodDecl) : MethodDecl :=
  { m with
    typeVariables := m.typeVariables.map (TypeVarDecl.rename ρ)
    returnType := m.returnType.rename ρ
    parameters := m.parameters.map (ParameterDecl.rename ρ)
    exceptions := m.exceptions.map (Shape.rename ρ) }

def ClassDecl.rename (c : ClassDecl) : ClassDecl :=
  { c with
    typeVariables := c.typeVariables.map (TypeVarDecl.rename ρ)
    superclass := c.superclass.map (Shape.rename ρ)
    interfaces := c.interfaces.map (Shape.rename ρ)
    declaring := c.declaring.map ρ
    fields := c.fields.map (FieldDecl.rename ρ)
    methods := c.methods.map (MethodDecl.rename ρ) }

variable {ρ}

namespace Shape

theorem renameArguments_eq_map (as : List Shape) : renameArguments ρ as = as.map (rename ρ) := by
  induction as with
  | nil => simp [renameArguments]
  | cons a as ih => simp [renameArguments, ih]

theorem renameOwner_eq_map (o : Option Shape) : renameOwner ρ o = o.map (rename ρ) := by
  cases o <;> simp [renameOwner]

theorem rename_applied (raw : ClassId) (as : List Shape) (o : Option Shape) :
    (applied raw as o).rename ρ = .applied (ρ raw) (as.map (rename ρ)) (o.map (rename ρ)) := by
  simp [rename, renameArguments_eq_map, renameOwner_eq_map]

theorem rename_arrayOf (c : Shape) : (arrayOf c).rename ρ = arrayOf (c.rename ρ) := by
  cases c <;> simp [arrayOf, rename, Erased.rename]

theorem rename_ofClass (id : ClassId) : (ofClass id).rename ρ = ofClass (ρ id) :=
  by simp [ofClass, rename, Erased.rename]

theorem erasure?_rename (t : Shape) : (t.rename ρ).erasure? = t.erasure?.map (Erased.rename ρ) := by
  induction t with
  | plain e => simp [rename, erasure?]
  | array c ih => simp [rename, erasure?, ih, Option.map_map, Function.comp_def, Erased.rename]
  | applied raw as o _ _ => simp [rename, erasure?, Erased.rename]
  | upper b _ => simp [rename, erasure?]
  | lower b _ => simp [rename, erasure?]
  | reference v => simp [rename, erasure?, TypeVariable.rename]

end Shape

theorem TypeVarDecl.erasure_rename (hobject : ρ .object = .object) (v : TypeVarDecl) :
    (v.rename ρ).erasure = v.erasure.rename ρ :=
  erasure_mapBounds_map (fun b _ => b.erasure?_rename)
    (Or.inl (by rw [Erased.object, Erased.rename, hobject]))

end JvmTypes
