import JvmTypes.Store
/-!
# Subclasses and assignability

Whether a value of one erased type can be stored in a variable of another without a cast. For
classes this is reachability along super class and interface links, which may form cycles in a
store.
-/
namespace JvmTypes

namespace Store

def nextFront (s : Store) (seen front : List ClassId) : List ClassId :=
  ((front.flatMap fun id => (s.get id).supertypes).filter (· ∉ seen)).eraseDups

/-- Every class reachable from `front` by at most `rounds` links, behind those already seen. -/
def closure (s : Store) : Nat → List ClassId → List ClassId → List ClassId
  | 0, seen, _ => seen
  | rounds + 1, seen, front =>
    match s.nextFront seen front with
    | [] => seen
    | next => s.closure rounds (seen ++ next) next

/-- The class itself and every class it extends or implements, directly or not. A path without
repetition has fewer links than there are links in the store. -/
def ancestors (s : Store) (id : ClassId) : List ClassId :=
  s.closure (s.size + 1) [id] [id]

def isSubclass (s : Store) (sub super : ClassId) : Bool := super ∈ s.ancestors sub

end Store

namespace Erased

def isAssignable (s : Store) : (target source : Erased) → Bool
  | .array t, .array e => t = e || (!t.isPrimitive && !e.isPrimitive && isAssignable s t e)
  | .cls t, .cls e => t = e || t = .object || s.isSubclass e t
  | .cls t, .array _ => t = .object || t = .cloneable || t = .serializable
  | t, e => t = e

def package? (s : Store) : Erased → Option String
  | .cls id => some (s.get id).package
  | _ => none

/-- Types that are no classes belong to no package, and so all to the same. -/
def isSamePackage (s : Store) (a b : Erased) : Bool := a.package? s = b.package? s

def isVisibleTo (s : Store) : (type viewer : Erased) → Bool
  | .void, _ | .primitive _, _ => true
  | .array c, viewer => c.isVisibleTo s viewer
  | .cls id, viewer =>
    (s.get id).flags.isPublic || (s.get id).flags.isProtected ||
      (Erased.cls id).isSamePackage s viewer

def kind? (s : Store) (e : Erased) : Option ClassKind := e.classId?.map fun id => (s.get id).kind

def isInterface (s : Store) (e : Erased) : Bool :=
  e.kind? s = some .interface || e.kind? s = some .annotationType

def isAnnotationType (s : Store) (e : Erased) : Bool := e.kind? s = some .annotationType

def isEnum (s : Store) (e : Erased) : Bool := e.kind? s = some .enum

def isAnnotationValue (s : Store) : Erased → Bool
  | .primitive _ => true
  | .cls id => id = .string || id = .classLiteral || (Erased.cls id).isEnum s ||
      (Erased.cls id).isAnnotationType s
  | _ => false

def isAnnotationReturn (s : Store) : Erased → Bool
  | .array c => !c.isArray && c.isAnnotationValue s
  | e => e.isAnnotationValue s

end Erased

end JvmTypes
