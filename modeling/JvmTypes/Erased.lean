import JvmTypes.BaseType
/-!
# Erased types

Types as the machine sees them: `void`, the primitives, classes and arrays. A class is known by its
place in a class store; the classes that every store starts with have fixed places.
-/
namespace JvmTypes

/-- A class of a store, by the order in which names became known. -/
structure ClassId where
  index : Nat
  deriving DecidableEq

namespace ClassId

def object : ClassId := ⟨0⟩
def serializable : ClassId := ⟨1⟩
def cloneable : ClassId := ⟨2⟩
def annotationType : ClassId := ⟨3⟩
def string : ClassId := ⟨4⟩
def classLiteral : ClassId := ⟨5⟩
def enum : ClassId := ⟨6⟩
def methodType : ClassId := ⟨7⟩
def callSite : ClassId := ⟨8⟩
def constantCallSite : ClassId := ⟨9⟩
def methodHandles : ClassId := ⟨10⟩
def lookup : ClassId := ⟨11⟩
def methodHandle : ClassId := ⟨12⟩

/-- Stands for the class that a detached declaration will be attached to. -/
def target : ClassId := ⟨13⟩

end ClassId

inductive Erased where
  | void
  | primitive (type : BaseType)
  | cls (id : ClassId)
  | array (component : Erased)
  deriving DecidableEq

namespace Erased

def object : Erased := .cls .object

def isPrimitive : Erased → Bool
  | .primitive _ => true
  | _ => false

def isArray : Erased → Bool
  | .array _ => true
  | _ => false

def component? : Erased → Option Erased
  | .array c => some c
  | _ => none

def classId? : Erased → Option ClassId
  | .cls id => some id
  | _ => none

/-- Object's array type, which takes any number of trailing arguments. -/
def isObjectArray (e : Erased) : Bool := e = .array .object

def replaceClass (a b : ClassId) : Erased → Erased
  | .cls id => .cls (if id = a then b else id)
  | .array c => .array (c.replaceClass a b)
  | e => e

def slots : Erased → Nat
  | .void => 0
  | .primitive b => b.slots
  | .cls _ | .array _ => 1

def isConstantPool : Erased → Bool
  | .primitive .int | .primitive .long | .primitive .float | .primitive .double => true
  | .cls id => id ∈ [ClassId.string, .classLiteral, .methodHandle, .methodType]
  | _ => false

end Erased

end JvmTypes
