import JvmTypes.Method.Access
/-!
# Bootstrap methods

Methods that link a call site: static methods that return one, or constructors of one. They take a
lookup, a name, a method type and constants; from some place on all arguments may go into an array
of objects.
-/
namespace JvmTypes

inductive BootstrapArgument where
  | constant (value : Constant)
  | type (type : Erased)
  | methodHandle (owner name descriptor : String)
  | methodType (descriptor : String)
  deriving DecidableEq

namespace BootstrapArgument

def check : BootstrapArgument → Except ShapeError Unit
  | .constant c =>
    match c with
    | .byte _ | .char _ | .short _ | .boolean _ => .error (.illegalBootstrapArgument c)
    | _ => .ok ()
  | _ => .ok ()

def bindsTo (s : Store) : BootstrapArgument → Erased → Bool
  | .constant (.string _), p => p = .cls .string
  | .constant (.int _), p => p = .primitive .int
  | .constant (.long _), p => p = .primitive .long
  | .constant (.float _), p => p = .primitive .float
  | .constant (.double _), p => p = .primitive .double
  | .constant _, _ => false
  | .type _, p => p = .cls .classLiteral
  | .methodHandle .., p => p.isAssignable s (.cls .methodHandle)
  | .methodType _, p => p = .cls .methodType

end BootstrapArgument

namespace Bootstrap

def takesLookup (s : Store) (p : Erased) : Bool := p.isAssignable s (.cls .lookup)

def takesName (p : Erased) : Bool := p = .object || p = .cls .string

def takesMethodType (s : Store) (p : Erased) : Bool := p.isAssignable s (.cls .methodType)

/-- Parameters behind the third: constants, or objects that stand for any constant; only the last
may be an array that takes the remaining arguments. -/
def takesConstants : List Erased → Bool
  | [] => true
  | p :: ps => if p = .object || p.isConstantPool then takesConstants ps
      else p.isObjectArray && ps.isEmpty

def takesParameters (s : Store) : List Erased → Bool
  | [] => false
  | [a] => a.isObjectArray
  | [a, b] => takesLookup s a && b.isObjectArray
  | [a, b, c] => takesLookup s a && takesName b && (c.isObjectArray || takesMethodType s c)
  | a :: b :: c :: rest =>
      takesLookup s a && takesName b && takesMethodType s c && takesConstants rest

/-- The arguments fill these parameters one by one; a mismatch is allowed at an array of objects in
last place, which takes the rest. -/
def binds (s : Store) : List Erased → List BootstrapArgument → Bool
  | [], _ => true
  | p :: ps, a :: as => if a.bindsTo s p then binds s ps as else ps.isEmpty && p.isObjectArray
  | p :: ps, [] => ps.isEmpty && p.isObjectArray

end Bootstrap

namespace Method

/-- A static method that returns a call site or a type that may be one, or a constructor of a call
site. -/
def linksCallSite (s : Store) (m : Method) (returns : Erased) : Bool :=
  let callSite := Erased.cls .callSite
  !((m.isOrdinary &&
    (!m.flags.isStatic || !(callSite.isAssignable s returns || returns.isAssignable s callSite))) ||
    (m.isConstructor && !callSite.isAssignable s m.ownerType))

def isBootstrap (s : Store) (m : Method) : Except ShapeError Bool := do
  let returns ← m.returnType.erasure
  if m.linksCallSite s returns then do
    let ps ← Shape.erasures m.parameterTypes
    .ok (Bootstrap.takesParameters s ps)
  else .ok false

def isBootstrapWith (s : Store) (m : Method) (arguments : List BootstrapArgument) :
    Except ShapeError Bool := do
  if ← m.isBootstrap s then do
    arguments.forM BootstrapArgument.check
    let ps ← Shape.erasures m.parameterTypes
    if ps.length < 4 then
      .ok (arguments.isEmpty || (ps.getLast?.map Erased.isObjectArray).getD false)
    else .ok (Bootstrap.binds s (ps.drop 3) arguments)
  else .ok false

end Method

end JvmTypes
