import JvmTypes.Assignability
import JvmTypes.Method
/-!
# Access to methods

What a method is, and which classes may see it, call it through dispatch or call it directly.
-/
namespace JvmTypes.Method

def ownerType (m : Method) : Erased := .cls m.owner

def isVirtual (m : Method) : Bool :=
  !(m.isConstructor || m.flags.isPrivate || m.flags.isStatic || m.isTypeInitializer)

/-- An instance method with a body that an interface declares. -/
def isDefaultMethod (s : Store) (m : Method) : Bool :=
  m.isOrdinary && !m.flags.isStatic && !m.flags.isAbstract && !m.flags.isBridge &&
    m.ownerType.isInterface s

def isVisibleTo (s : Store) (m : Method) (viewer : Erased) : Bool :=
  (m.isVirtual || m.ownerType.isVisibleTo s viewer) &&
    (m.flags.isPublic || viewer = m.ownerType ||
      (m.flags.isProtected && m.ownerType.isAssignable s viewer) ||
      (!m.flags.isPrivate && viewer.isSamePackage s m.ownerType))

def isAccessibleTo (s : Store) (m : Method) (viewer : Erased) : Bool :=
  m.isVisibleTo s viewer && m.ownerType.isVisibleTo s viewer

/-- `target` may call the method without dispatch. -/
def isSpecializableFor (s : Store) (m : Method) (target : Erased) : Bool :=
  if m.flags.isStatic then false
  else if m.flags.isPrivate || m.isConstructor || m.isDefaultMethod s then m.ownerType = target
  else !m.flags.isAbstract && m.ownerType.isAssignable s target

def isInvokableOn (s : Store) (m : Method) (receiver : Erased) : Bool :=
  !m.flags.isStatic && !m.isTypeInitializer && m.isVisibleTo s receiver &&
    (if m.isVirtual then m.ownerType.isAssignable s receiver else m.ownerType = receiver)

end JvmTypes.Method
