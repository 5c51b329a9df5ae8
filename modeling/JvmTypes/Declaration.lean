import JvmTypes.AccessFlags
import JvmTypes.Annotation
import JvmTypes.Shape
/-!
# Declarations

Classes, fields and methods exactly as declared, with their types as shapes.
-/
namespace JvmTypes

structure TypeVarDecl where
  symbol : String
  bounds : List Shape
  deriving DecidableEq

/-- Erasure of the leftmost bound; the root class if there is none or it is a wildcard. -/
def TypeVarDecl.erasure (v : TypeVarDecl) : Erased :=
  (v.bounds.head?.bind Shape.erasure?).getD .object

def TypeVarDecl.find? (symbol : String) (vars : List TypeVarDecl) : Option TypeVarDecl :=
  vars.find? (·.symbol = symbol)

structure FieldDecl where
  name : String
  flags : AccessFlags
  type : Shape
  annotations : List Annotation

structure ParameterDecl where
  type : Shape
  name : Option String := none
  flags : Option AccessFlags := none
  deriving DecidableEq

structure MethodDecl where
  internalName : String
  flags : AccessFlags
  typeVariables : List TypeVarDecl := []
  returnType : Shape
  parameters : List ParameterDecl := []
  exceptions : List Shape := []
  annotations : List Annotation := []
  defaultValue : Option ElementValue := none

def MethodDecl.constructorName : String := "<init>"
def MethodDecl.typeInitializerName : String := "<clinit>"

def MethodDecl.typeInitializer : MethodDecl where
  internalName := typeInitializerName
  flags := .ofBits [AccessFlags.staticBit, AccessFlags.privateBit, AccessFlags.syntheticBit]
  returnType := .void

inductive ClassKind where
  | ordinary | interface | annotationType | enum
  deriving DecidableEq

structure ClassDecl where
  name : String
  flags : AccessFlags
  typeVariables : List TypeVarDecl := []
  superclass : Option Shape := none
  interfaces : List Shape := []
  /-- The lexically enclosing class of a member class. -/
  declaring : Option ClassId := none
  annotations : List Annotation := []
  fields : List FieldDecl := []
  methods : List MethodDecl := []
  /-- The name was mentioned but its class was never defined. -/
  isPlaceholder : Bool := false

namespace ClassDecl

def placeholder (name : String) : ClassDecl where
  name := name
  flags := .ofBits [AccessFlags.publicBit]
  superclass := some .object
  isPlaceholder := true

def kind (c : ClassDecl) : ClassKind :=
  if c.flags.isAnnotationType then .annotationType
  else if c.flags.isInterface then .interface
  else if c.flags.isEnum then .enum
  else .ordinary

/-- Has the interface flag, whatever its kind: an annotation type may lack it. -/
def isInterface (c : ClassDecl) : Bool := c.flags.isInterface

def package (c : ClassDecl) : String := Name.package c.name

/-- The class whose type variables are in scope inside this one too: a static member class sees
none. -/
def enclosing (c : ClassDecl) : Option ClassId := if c.flags.isStatic then none else c.declaring

def supertypes (c : ClassDecl) : List ClassId :=
  (c.superclass.toList ++ c.interfaces).filterMap fun s => s.erasure?.bind Erased.classId?

end ClassDecl

end JvmTypes
