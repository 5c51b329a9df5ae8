import JvmTypes.Scope
import JvmTypes.ShapeError
import JvmTypes.Substitution
/-!
# Methods

A method as declared, or as seen through a type that applies its class to arguments. The view
substitutes every type of the declaration but keeps the type variables that the method declares
itself: only their erasure follows the substituted bounds.
-/
namespace JvmTypes

namespace Substitution

def boundErasure (σ : Substitution) (own : String → Erased) : Shape → Erased
  | .variable v => if v.source = .method then own v.symbol else (σ.var v).erasure?.getD .object
  | .array c => .array (boundErasure σ own c)
  | .applied raw _ _ => .cls (σ.raw raw)
  | .plain e => (σ.erased e).erasure?.getD .object
  | .upper _ | .lower _ => .object

/-- Erasure of the variable `symbol` of a method that declares `vars`, by its chain of first bounds.
A symbol in `visited` closes a cycle and erases to the root class, as does one that is not
declared. -/
def chainErasure (σ : Substitution) (vars : List TypeVarDecl) : Nat → List String → String → Erased
  | 0, _, _ => .object
  | steps + 1, visited, symbol =>
    if symbol ∈ visited then .object
    else match (TypeVarDecl.find? symbol vars).bind (·.bounds.head?) with
      | some bound => σ.boundErasure (σ.chainErasure vars steps (symbol :: visited)) bound
      | none => .object

/-- A chain that visits no variable twice takes no more steps than there are variables. -/
def ownErasure (σ : Substitution) (vars : List TypeVarDecl) (symbol : String) : Erased :=
  σ.chainErasure vars (vars.length + 1) [] symbol

/-- Keeps the variables of the method that declares `vars`, and is `σ` on everything else. -/
def retaining (σ : Substitution) (vars : List TypeVarDecl) : Substitution :=
  let keep (v : TypeVariable) : Shape := .variable ⟨v.symbol, .method, σ.ownErasure vars v.symbol⟩
  { var := fun v => if v.source = .method then keep v else σ.var v
    argument := fun v => if v.source = .method then keep v else σ.argument v
    erased := σ.erased
    raw := σ.raw }

end Substitution

/-- How a method is seen: the type through which, and what that does to the types of the
declaration. -/
structure Viewpoint where
  declaringType : Shape
  subst : Substitution

structure Method where
  owner : ClassId
  decl : MethodDecl
  /-- None for the method as declared. -/
  viewpoint : Option Viewpoint

structure Parameter where
  type : Shape
  index : Nat
  /-- Local variable slot, counting the receiver and two slots for every 64-bit parameter in
  front. -/
  offset : Nat
  name? : Option String
  flags? : Option AccessFlags

namespace Parameter

def name (p : Parameter) : String := p.name?.getD ("arg" ++ toString p.index)

def flags (p : Parameter) : AccessFlags := p.flags?.getD .empty

end Parameter

namespace Method

def ofDecl (owner : ClassId) (decl : MethodDecl) : Method := ⟨owner, decl, none⟩

def typeInitializer (owner : ClassId) : Method := ofDecl owner .typeInitializer

def declaredBy (s : Store) (owner : ClassId) : List Method :=
  (s.get owner).methods.map (ofDecl owner)

def through (m : Method) (declaringType : Shape) (σ : Substitution) : Method :=
  { m with viewpoint := some ⟨declaringType, σ⟩ }

def asDeclared (m : Method) : Method := { m with viewpoint := none }

def isDeclared (m : Method) : Bool := m.viewpoint.isNone

def declaringType (m : Method) : Shape :=
  (m.viewpoint.map (·.declaringType)).getD (.ofClass m.owner)

def see (m : Method) (t : Shape) : Shape :=
  match m.viewpoint with
  | none => t
  | some view => t.subst (view.subst.retaining m.decl.typeVariables)

def internalName (m : Method) : String := m.decl.internalName

def flags (m : Method) : AccessFlags := m.decl.flags

def typeVariables (m : Method) : List TypeVarDecl :=
  m.decl.typeVariables.map fun v => ⟨v.symbol, v.bounds.map m.see⟩

def returnType (m : Method) : Shape := m.see m.decl.returnType

def parameterTypes (m : Method) : List Shape := m.decl.parameters.map fun p => m.see p.type

def exceptions (m : Method) : List Shape := m.decl.exceptions.map m.see

def receiverSlots (m : Method) : Nat := if m.flags.isStatic then 0 else 1

/-- Parameters from position `index` and slot `offset` on. Slots follow the declared types. -/
def parametersFrom (m : Method) :
    (index offset : Nat) → List ParameterDecl → Except ShapeError (List Parameter)
  | _, _, [] => .ok []
  | index, offset, p :: ps => do
    let e ← p.type.erasure
    let rest ← m.parametersFrom (index + 1) (offset + e.slots) ps
    .ok (⟨m.see p.type, index, offset, p.name, p.flags⟩ :: rest)

def parameters (m : Method) : Except ShapeError (List Parameter) :=
  m.parametersFrom 0 m.receiverSlots m.decl.parameters

def isConstructor (m : Method) : Bool := m.internalName = MethodDecl.constructorName

def isTypeInitializer (m : Method) : Bool := m.internalName = MethodDecl.typeInitializerName

def isOrdinary (m : Method) : Bool := !m.isConstructor && !m.isTypeInitializer

structure TypeToken where
  returnType : Erased
  parameterTypes : List Erased
  deriving DecidableEq

def typeToken (m : Method) : Except ShapeError TypeToken := do
  let r ← m.returnType.erasure
  let ps ← Shape.erasures m.parameterTypes
  .ok ⟨r, ps⟩

def slots (m : Method) : Except ShapeError Nat := do
  let ps ← Shape.erasures m.parameterTypes
  .ok (ps.foldr (fun p n => p.slots + n) m.receiverSlots)

/-- Two methods share a dispatch slot if their names and erased types agree, whatever their
classes. -/
def same (m n : Method) : Except ShapeError Bool :=
  if m.internalName = n.internalName then do
    let t ← m.typeToken
    let u ← n.typeToken
    .ok (t = u)
  else .ok false

def ownScope (m : Method) : Scope := Scope.ofDecls .method m.typeVariables

def scope (s : Store) (m : Method) : Scope := m.ownScope.orElse (Scope.ofClass s m.owner)

end Method

end JvmTypes
