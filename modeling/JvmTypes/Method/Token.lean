import JvmTypes.Detachment
import JvmTypes.Method
/-!
# Method tokens

A method shape without its class. Detaching a method gives a token, attaching a token to a class
gives a method again.
-/
namespace JvmTypes

structure MethodToken where
  internalName : String
  flags : AccessFlags
  typeVariables : List TypeVarDecl
  returnType : Shape
  parameters : List ParameterDecl
  exceptions : List Shape
  annotations : List Annotation
  defaultValue : Option ElementValue

namespace MethodToken

def subst (σ : Substitution) (t : MethodToken) : MethodToken where
  internalName := t.internalName
  flags := t.flags
  typeVariables := t.typeVariables.map fun v => ⟨v.symbol, v.bounds.map (Shape.subst σ)⟩
  returnType := t.returnType.subst σ
  parameters := t.parameters.map fun p => ⟨p.type.subst σ, p.name, p.flags⟩
  exceptions := t.exceptions.map (Shape.subst σ)
  annotations := t.annotations
  defaultValue := t.defaultValue

/-- The two agree in every attribute; constants are compared as values. -/
def isIdenticalTo (t u : MethodToken) : Bool :=
  t.internalName = u.internalName && t.flags = u.flags && t.typeVariables = u.typeVariables &&
    t.returnType = u.returnType && t.parameters = u.parameters && t.exceptions = u.exceptions &&
    Annotation.sameAll t.annotations u.annotations &&
      ElementValue.sameOption t.defaultValue u.defaultValue

def typeToken (t : MethodToken) : Except ShapeError Method.TypeToken := do
  let r ← t.returnType.erasure
  let ps ← Shape.erasures (t.parameters.map (·.type))
  .ok ⟨r, ps⟩

def same (t u : MethodToken) : Except ShapeError Bool :=
  if t.internalName = u.internalName then do
    let a ← t.typeToken
    let b ← u.typeToken
    .ok (a = b)
  else .ok false

def shapes (t : MethodToken) : List Shape :=
  t.typeVariables.flatMap (·.bounds) ++ t.returnType :: (t.parameters.map (·.type) ++ t.exceptions)

def detachedSymbols (t : MethodToken) : List String := t.shapes.flatMap Shape.detachedSymbols

/-- The scope of a token on its way to the class `owner`: its own variables, then those of the
class. -/
def scope (s : Store) (t : MethodToken) (owner : ClassId) : Scope :=
  Scope.orElse
    (fun symbol => (TypeVarDecl.find? symbol t.typeVariables).map fun v =>
      ⟨v.symbol, .method, v.erasure.replaceClass .target owner⟩)
    (Scope.ofClass s owner)

def toDecl (t : MethodToken) : MethodDecl where
  internalName := t.internalName
  flags := t.flags
  typeVariables := t.typeVariables
  returnType := t.returnType
  parameters := t.parameters
  exceptions := t.exceptions
  annotations := t.annotations
  defaultValue := t.defaultValue

/-- Binds the token to a class. Every symbol has to resolve there. -/
def attach (s : Store) (t : MethodToken) (owner : ClassId) : Except ShapeError Method :=
  let attached := t.subst (.attachingIn (t.scope s owner) owner)
  match attached.detachedSymbols with
  | [] => .ok (.ofDecl owner attached.toDecl)
  | symbol :: _ => .error (.unresolvedVariable symbol)

end MethodToken

namespace Method

def detachWith (m : Method) (σ : Substitution) : Except ShapeError MethodToken := do
  let ps ← m.parameters
  .ok {
    internalName := m.internalName
    flags := m.flags
    typeVariables := m.typeVariables.map fun v => ⟨v.symbol, v.bounds.map (Shape.subst σ)⟩
    returnType := m.returnType.subst σ
    parameters := ps.map fun p => ⟨p.type.subst σ, p.name?, p.flags?⟩
    exceptions := m.exceptions.map (Shape.subst σ)
    annotations := m.decl.annotations
    defaultValue := m.decl.defaultValue }

def isDeclaredOutside (v : TypeVariable) : Bool := v.source ≠ .method

def toTokenWith (m : Method) (erase : TypeVariable → Bool) : Except ShapeError MethodToken :=
  m.detachWith (.detaching erase none)

/-- Erases every variable that the method does not declare, so that the token attaches to any
class. -/
def toToken (m : Method) : Except ShapeError MethodToken := m.toTokenWith isDeclaredOutside

/-- Also puts the stand-in for the class of the method. -/
def toRetargetedToken (m : Method) : Except ShapeError MethodToken :=
  m.detachWith (.detaching isDeclaredOutside (some m.owner))

end Method

end JvmTypes
