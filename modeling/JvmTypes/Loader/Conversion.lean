import JvmTypes.Loader.State
/-!
# From signatures to shapes

The shapes of signature trees in the scope of a declaration. Naming a class resolves it, from the
outermost segment of a class type to the innermost.
-/
namespace JvmTypes.Loader

open Signature

/-- Erasures of the variables of one list of type parameters. Of two with one name the later
counts. -/
abbrev Erasures := List (String × Erased)

/-- The type variables that a declaration sees while its signatures are converted. -/
structure Surroundings where
  declaring : ClassId
  /-- The class around a member class that is not static. -/
  enclosing : Option ClassId
  classVariables : Erasures := []
  methodVariables : Erasures := []

def Erasures.get? (es : Erasures) (name : String) : Option Erased :=
  (es.reverse.find? (·.1 = name)).map (·.2)

def Surroundings.resolve? (sur : Surroundings) (s : Store) (name : String) : Option TypeVariable :=
  match Erasures.get? sur.methodVariables name with
  | some e => some ⟨name, .method, e⟩
  | none =>
    match Erasures.get? sur.classVariables name with
    | some e => some ⟨name, .type sur.declaring, e⟩
    | none =>
      (sur.enclosing.bind fun outer => s.findVariable? outer name).map fun (owner, v) =>
        ⟨name, .type owner, v.erasure⟩

def resolveVariable (sur : Surroundings) (name : String) : Load SignatureFault TypeVariable := do
  match sur.resolve? (← getStore) name with
  | some v => pure v
  | none => throw (.undeclaredVariable name)

def classNamed (resolve : Resolver) (c : ClassTree) : Load SignatureFault ClassId :=
  referenced resolve (Name.toBinary c.internalName)

def applyTo (owner : Option Shape) (raw : ClassId) (arguments : List Shape) : Shape :=
  match owner with
  | some (.applied raw' as o) => .applied raw arguments (some (.applied raw' as o))
  | _ => if arguments.isEmpty then .ofClass raw else .applied raw arguments none

mutual

def shapeOf (resolve : Resolver) (sur : Surroundings) : TypeTree → Load SignatureFault Shape
  | .base b => pure (.plain (.primitive b))
  | .array c => do
    let c ← shapeOf resolve sur c
    pure (.arrayOf c)
  | .classType c => shapeOfClass resolve sur c
  | .variable name => do
    let v ← resolveVariable sur name
    pure (.variable v)

def shapeOfClass (resolve : Resolver) (sur : Surroundings) : ClassTree → Load SignatureFault Shape
  | .top package name as => do
    let raw ← classNamed resolve (.top package name as)
    let as ← shapesOf resolve sur as
    pure (applyTo none raw as)
  | .member outer name as => do
    let owner ← shapeOfClass resolve sur outer
    let raw ← classNamed resolve (.member outer name as)
    let as ← shapesOf resolve sur as
    pure (applyTo (some owner) raw as)

def shapesOf (resolve : Resolver) (sur : Surroundings) :
    List Argument → Load SignatureFault (List Shape)
  | [] => pure []
  | a :: as => do
    let a ← shapeOfArgument resolve sur a
    let as ← shapesOf resolve sur as
    pure (a :: as)

def shapeOfArgument (resolve : Resolver) (sur : Surroundings) : Argument → Load SignatureFault Shape
  | .any => pure .unbounded
  | .exact t => shapeOf resolve sur t
  | .extends t => do
    let t ← shapeOf resolve sur t
    pure (.upper t)
  | .super t => do
    let t ← shapeOf resolve sur t
    pure (.lower t)

end

/-- Erasure of the type parameter at a place of the list, by its chain of first bounds. A place in
`visited` closes a cycle, so no chain takes more steps than there are parameters. -/
def parameterErasure (resolve : Resolver) (sur : Surroundings) (params : List TypeParameter) :
    Nat → List Nat → Nat → Load SignatureFault Erased
  | 0, _, _ => pure .object
  | steps + 1, visited, place =>
    match params[place]? with
    | none => pure .object
    | some p =>
      match p.bounds.head? with
      | none => pure .object
      | some (.variable name) =>
        match params.findIdx? (·.name = name) with
        | some next =>
          if place ∈ visited then throw (.cyclicBound p.name)
          else parameterErasure resolve sur params steps (place :: visited) next
        | none => do
          let v ← resolveVariable sur name
          pure v.erasure
      | some (.classType c) => do
        let id ← classNamed resolve c
        pure (.cls id)
      | some _ => throw (.nonClassBound p.name)

def parameterErasures (resolve : Resolver) (sur : Surroundings) (params : List TypeParameter) :
    Load SignatureFault Erasures :=
  (List.range params.length).zip params |>.mapM fun (place, p) => do
    let e ← parameterErasure resolve sur params (params.length + 2) [] place
    pure (p.name, e)

def typeVariable (resolve : Resolver) (sur : Surroundings) (p : TypeParameter) :
    Load SignatureFault TypeVarDecl := do
  match p.bounds with
  | [] => pure ⟨p.name, [.object]⟩
  | bounds =>
    let bounds ← bounds.mapM (shapeOf resolve sur)
    pure ⟨p.name, bounds⟩

structure Header where
  typeVariables : List TypeVarDecl
  superclass : Option Shape
  interfaces : List Shape
  surroundings : Surroundings

/-- An interface has no super class, whatever its signature says. -/
def headerOf (resolve : Resolver) (sur : Surroundings) (isInterface : Bool) (sig : ClassSignature) :
    Load SignatureFault Header := do
  let erasures ← parameterErasures resolve sur sig.typeParameters
  let sur := { sur with classVariables := erasures }
  let typeVariables ← sig.typeParameters.mapM (typeVariable resolve sur)
  let superclass ← if isInterface then pure none
    else some <$> shapeOfClass resolve sur sig.superclass
  let interfaces ← sig.interfaces.mapM (shapeOfClass resolve sur)
  pure ⟨typeVariables, superclass, interfaces, sur⟩

structure MethodTypes where
  typeVariables : List TypeVarDecl
  parameters : List Shape
  returnType : Shape
  exceptions : List Shape

/-- The signature must have as many parameters as the descriptor. -/
def methodTypesOf (resolve : Resolver) (sur : Surroundings) (descriptor : MethodDescriptor)
    (sig : MethodSignature) : Load SignatureFault MethodTypes := do
  if sig.parameters.length ≠ descriptor.parameters.length then throw .parameterCount
  let erasures ← parameterErasures resolve sur sig.typeParameters
  let sur := { sur with methodVariables := erasures }
  let typeVariables ← sig.typeParameters.mapM (typeVariable resolve sur)
  let parameters ← sig.parameters.mapM (shapeOf resolve sur)
  let returnType ←
    match sig.returnType with
    | none => pure .void
    | some t => shapeOf resolve sur t
  let exceptions ← sig.throws.mapM (shapeOf resolve sur)
  pure ⟨typeVariables, parameters, returnType, exceptions⟩

def converted (parse : String → Except Signature.Invalid τ) (convert : τ → Load SignatureFault α)
    (text : String) : Load SignatureFault α :=
  match parse text with
  | .ok tree => convert tree
  | .error error => throw (.unreadable error)

def shapeOfField (resolve : Resolver) : FieldType → Load LoadError Shape
  | .base b => pure (.plain (.primitive b))
  | .array c => do
    let c ← shapeOfField resolve c
    pure (.arrayOf c)
  | .object name => do
    let id ← resolve (Name.toBinary name)
    pure (.ofClass id)

end JvmTypes.Loader
