import JvmTypes.Declaration
/-!
# Class stores

The classes that are known, in the order in which their names became known. A name that is mentioned
before it is defined stands for a placeholder, which its definition replaces later.
-/
namespace JvmTypes

structure Store where
  classes : Array ClassDecl

namespace Store

open AccessFlags in
/-- The runtime classes that every store starts with, at the places `ClassId` names. -/
def seeds : List ClassDecl :=
  let object : Option Shape := some .object
  let serializable : List Shape := [.ofClass .serializable]
  let interface : AccessFlags := .ofBits [publicBit, interfaceBit, abstractBit]
  [ { name := "java.lang.Object", flags := .ofBits [publicBit] },
    { name := "java.io.Serializable", flags := interface },
    { name := "java.lang.Cloneable", flags := interface },
    { name := "java.lang.annotation.Annotation", flags := interface },
    { name := "java.lang.String", flags := .ofBits [publicBit, finalBit], superclass := object,
      interfaces := serializable },
    { name := "java.lang.Class", flags := .ofBits [publicBit, finalBit], superclass := object,
      interfaces := serializable },
    { name := "java.lang.Enum", flags := .ofBits [publicBit, abstractBit], superclass := object,
      interfaces := serializable },
    { name := "java.lang.invoke.MethodType", flags := .ofBits [publicBit, finalBit],
      superclass := object, interfaces := serializable },
    { name := "java.lang.invoke.CallSite", flags := .ofBits [publicBit, abstractBit],
      superclass := object },
    { name := "java.lang.invoke.ConstantCallSite", flags := .ofBits [publicBit],
      superclass := some (.ofClass .callSite) },
    { name := "java.lang.invoke.MethodHandles", flags := .ofBits [publicBit],
      superclass := object },
    { name := "java.lang.invoke.MethodHandles$Lookup",
      flags := .ofBits [publicBit, finalBit, staticBit], superclass := object,
      declaring := some .methodHandles },
    { name := "java.lang.invoke.MethodHandle", flags := .ofBits [publicBit, abstractBit],
      superclass := object },
    { name := "nova.types.TargetType", flags := .ofBits [publicBit, finalBit],
      superclass := object } ]

def initial : Store := ⟨seeds.toArray⟩

def size (s : Store) : Nat := s.classes.size

def ids (s : Store) : List ClassId := (List.range s.size).map ClassId.mk

/-- The declaration at a place; outside the store a placeholder without a name. -/
def get (s : Store) (id : ClassId) : ClassDecl := (s.classes[id.index]?).getD (.placeholder "")

def name (s : Store) (id : ClassId) : String := (s.get id).name

def lookup? (s : Store) (name : String) : Option ClassId :=
  (s.classes.findIdx? (·.name = name)).map ClassId.mk

def intern (s : Store) (name : String) : ClassId × Store :=
  match s.lookup? name with
  | some id => (id, s)
  | none => (⟨s.size⟩, ⟨s.classes.push (.placeholder name)⟩)

def define (s : Store) (id : ClassId) (decl : ClassDecl) : Store :=
  ⟨s.classes.setIfInBounds id.index decl⟩

def add (s : Store) (decl : ClassDecl) : ClassId × Store :=
  let (id, s) := s.intern decl.name
  (id, s.define id decl)

/-- The innermost class, from `id` outwards, that declares the type variable `symbol`, and its
declaration. The search takes at most `steps` classes. -/
def findVariableIn (s : Store) (symbol : String) : Nat → ClassId → Option (ClassId × TypeVarDecl)
  | 0, _ => none
  | steps + 1, id =>
    match TypeVarDecl.find? symbol (s.get id).typeVariables with
    | some v => some (id, v)
    | none => (s.get id).enclosing.bind (s.findVariableIn symbol steps)

/-- A chain of enclosing classes without repetition is no longer than the store. -/
def findVariable? (s : Store) (id : ClassId) (symbol : String) : Option (ClassId × TypeVarDecl) :=
  s.findVariableIn symbol s.size id

end Store

end JvmTypes
