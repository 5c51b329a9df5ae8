import JvmTypes.Loader.Conversion
/-!
# Loading classes

Defines classes in a store from the stubs of a source. The classes that a declaration mentions are
loaded with it, as deep as the configuration allows; a mentioned class that the source does not know
stays a placeholder. What the store defines already is never touched.
-/
namespace JvmTypes.Loader

def plainHeader (resolve : Resolver) (sur : Surroundings) (stub : ClassStub) :
    Load LoadError Header := do
  let superclass ←
    match stub.superclass with
    | some name => if stub.flags.isInterface then pure none else do
      let id ← resolve name
      pure (some (.ofClass id))
    | none => pure none
  let interfaces ← stub.interfaces.mapM fun name => do
    let id ← resolve name
    pure (Shape.ofClass id)
  pure ⟨[], superclass, interfaces, sur⟩

def header (config : Config) (resolve : Resolver) (sur : Surroundings) (stub : ClassStub) :
    Load LoadError Header := do
  let fromSignature ←
    match stub.signature with
    | none => pure none
    | some text =>
      settle config stub.name
        (converted Signature.ClassSignature.parse (headerOf resolve sur stub.flags.isInterface)
          text)
  match fromSignature with
  | some header => pure header
  | none => plainHeader resolve sur stub

def fieldDecl (config : Config) (resolve : Resolver) (sur : Surroundings) (className : String)
    (stub : FieldStub) :
    Load LoadError FieldDecl := do
  let owner := className ++ "." ++ stub.name
  match stub.type with
  | .error invalid => throw (.malformedDescriptor owner invalid)
  | .ok descriptor =>
    let fromSignature ←
      match stub.signature with
      | none => pure none
      | some text =>
          settle config owner (converted Signature.TypeTree.parse (shapeOf resolve sur) text)
    let type ←
      match fromSignature with
      | some type => pure type
      | none => shapeOfField resolve descriptor
    pure ⟨stub.name, stub.flags, type, stub.annotations⟩

def plainTypes (resolve : Resolver) (descriptor : MethodDescriptor) :
    Load LoadError MethodTypes := do
  let parameters ← descriptor.parameters.mapM (shapeOfField resolve)
  let returnType ←
    match descriptor.returnType with
    | none => pure .void
    | some t => shapeOfField resolve t
  pure ⟨[], parameters, returnType, []⟩

/-- Recorded parameters count only if there is one for every parameter. -/
def parameterDecls (recorded : List ParameterStub) (types : List Shape) : List ParameterDecl :=
  if recorded.length = types.length then (types.zip recorded).map fun (t, p) => ⟨t, p.name, p.flags⟩
  else types.map fun t => ⟨t, none, none⟩

def methodDecl (config : Config) (resolve : Resolver) (sur : Surroundings) (className : String)
    (stub : MethodStub) :
    Load LoadError MethodDecl := do
  let owner := className ++ "." ++ stub.name ++ stub.descriptor
  match stub.type with
  | .error invalid => throw (.malformedDescriptor owner invalid)
  | .ok descriptor =>
    let fromSignature ←
      match stub.signature with
      | none => pure none
      | some text =>
        settle config owner
          (converted Signature.MethodSignature.parse (methodTypesOf resolve sur descriptor) text)
    let types ←
      match fromSignature with
      | some types => pure types
      | none => plainTypes resolve descriptor
    let exceptions ←
      match types.exceptions with
      | [] => stub.exceptions.mapM fun internal => do
        let id ← resolve (Name.toBinary internal)
        pure (Shape.ofClass id)
      | exceptions => pure exceptions
    pure {
      internalName := stub.name
      flags := stub.flags
      typeVariables := types.typeVariables
      returnType := types.returnType
      parameters := parameterDecls stub.parameters types.parameters
      exceptions := exceptions
      annotations := stub.annotations
      defaultValue := stub.defaultValue }

/-- The declaration that a stub describes: first the enclosing class, then the super types, then the
members. -/
def classDecl (config : Config) (resolve : Resolver) (id : ClassId) (stub : ClassStub) :
    Load LoadError ClassDecl := do
  let declaring ← stub.declaring.mapM resolve
  let enclosing := if stub.flags.isStatic then none else declaring
  let header ← header config resolve { declaring := id, enclosing := enclosing } stub
  let fields ← stub.fields.mapM (fieldDecl config resolve header.surroundings stub.name)
  let methods ← stub.methods.mapM (methodDecl config resolve header.surroundings stub.name)
  pure {
    name := stub.name
    flags := stub.flags
    typeVariables := header.typeVariables
    superclass := header.superclass
    interfaces := header.interfaces
    declaring := declaring
    annotations := stub.annotations
    fields := fields
    methods := methods }

def loadWith (source : Source) (config : Config) (resolve : Resolver) (name : String) :
    Load LoadError ClassId := do
  let st ← get
  match st.store.lookup? name with
  | some id =>
    if name ∈ st.loaded || name ∈ st.inProgress || !(st.store.get id).isPlaceholder then pure id
      else loadStub
  | none => loadStub
where
  loadStub : Load LoadError ClassId :=
    match source name with
    | none => throw (.notFound name)
    | some stub => do
      let id ← intern name
      let decl ← progressing name (classDecl config resolve id stub)
      define id decl
      remember name
      pure id

/-- Resolves a name by loading it; a name that the source does not know stays a placeholder. -/
def orIntern (load : Resolver) (name : String) : Load LoadError ClassId := fun st =>
  match load name st with
  | (.error (.notFound _), st) => intern name st
  | result => result

/-- Loads a class, and classes it mentions up to `levels` further levels deep. -/
def loadWithin (source : Source) (config : Config) : Nat → String → Load LoadError ClassId
  | 0, name => loadWith source config intern name
  | levels + 1, name => loadWith source config (orIntern (loadWithin source config levels)) name

/-- Makes sure that a class is defined. The class itself takes one level of the depth that is
allowed. -/
def load (source : Source) (config : Config) (name : String) : Load LoadError ClassId :=
  loadWithin source config (config.maxDepth - 1) name

def ensure (source : Source) (config : Config) (name : String) : StateM State (Option ClassId) :=
  fun st =>
  match load source config name st with
  | (.ok id, st) => (some id, st)
  | (.error _, st) => (none, st)

end JvmTypes.Loader
