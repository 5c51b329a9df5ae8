import JvmTypes.Assignability
import JvmTypes.Signature.Writer
/-!
# Signatures of shapes

The generic signature of a shape, of a class and of the parts of a member. Only what is generic has
a signature, and only if it can be written as one.
-/
namespace JvmTypes

namespace Signature

inductive Unwritable where
  | nestingTooDeep
  | notAMember
  | wildcardOutsideArgument
  | voidType
  | notAClass
  deriving DecidableEq

def Unwritable.reason : Unwritable → String
  | .nestingTooDeep => "type nesting too deep"
  | .notAMember => "inner class is not a member of its owner"
  | .wildcardOutsideArgument => "wildcard outside of a type argument"
  | .voidType => "void is not a type signature"
  | .notAClass => "super type is not a class type"

def Unwritable.message (e : Unwritable) : String := "malformed generic signature: " ++ e.reason

def maxDepth : Nat := 64

def rawTree (s : Store) (id : ClassId) : ClassTree := .raw (Name.toInternal (s.name id))

def memberTree (s : Store) (outer : ClassTree) (id : ClassId) : Except Unwritable ClassTree :=
  match Name.member? outer.internalName (Name.toInternal (s.name id)) with
  | some simple => .ok (.member outer simple [])
  | none => .error .notAMember

def ofErased (s : Store) : Erased → Except Unwritable TypeTree
  | .void => .error .voidType
  | .primitive b => .ok (.base b)
  | .cls id => .ok (.classType (rawTree s id))
  | .array c => (ofErased s c).map .array

mutual

/-- The tree of a shape. Every applied class and generic array takes one of the remaining levels. -/
def ofShape (s : Store) (levels : Nat) : Shape → Except Unwritable TypeTree
  | .plain e => ofErased s e
  | .array c =>
    match levels with
    | 0 => .error .nestingTooDeep
    | levels + 1 => (ofShape s levels c).map .array
  | .applied raw as owner =>
    match levels with
    | 0 => .error .nestingTooDeep
    | levels + 1 => do
      let c ← ofOwner s levels raw owner
      let arguments ← ofArguments s levels as
      .ok (.classType (c.withArguments arguments))
  | .upper _ | .lower _ => .error .wildcardOutsideArgument
  | .variable v => .ok (.variable v.symbol)

/-- The class `raw` without arguments, as a member of its owner if that is an applied class. -/
def ofOwner (s : Store) (levels : Nat) (raw : ClassId) : Option Shape → Except Unwritable ClassTree
  | some (.applied raw' as owner) => do
    match levels with
    | 0 => .error .nestingTooDeep
    | levels + 1 =>
      let c ← ofOwner s levels raw' owner
      let arguments ← ofArguments s levels as
      memberTree s (c.withArguments arguments) raw
  | _ => .ok (rawTree s raw)

def ofArguments (s : Store) (levels : Nat) : List Shape → Except Unwritable (List Argument)
  | [] => .ok []
  | a :: as => do
    let argument ← ofArgument s levels a
    let arguments ← ofArguments s levels as
    .ok (argument :: arguments)

def ofArgument (s : Store) (levels : Nat) : Shape → Except Unwritable Argument
  | .lower b => (ofShape s levels b).map .super
  | .upper (.plain e) => if e = .object then .ok .any else (ofErased s e).map .extends
  | .upper b => (ofShape s levels b).map .extends
  | a => (ofShape s levels a).map .exact

end

end Signature

namespace Shape

open Signature

def signature (s : Store) (t : Shape) : Except Unwritable TypeTree := ofShape s maxDepth t

def classSignature (s : Store) (t : Shape) : Except Unwritable ClassTree := do
  match ← t.signature s with
  | .classType c => .ok c
  | _ => .error .notAClass

def signatureText? (s : Store) (t : Shape) : Option String :=
  if t.isGeneric then (t.signature s).toOption.map TypeTree.text else none

end Shape

namespace TypeVarDecl

open Signature

/-- The first bound stands behind one colon if it is a class and behind two if it is an
interface. -/
def parameter (s : Store) (v : TypeVarDecl) : Except Unwritable TypeParameter := do
  let bounds ← v.bounds.mapM (Shape.signature s)
  let isInterface := ((v.bounds.head?.bind Shape.erasure?).map (Erased.isInterface s)).getD false
  match bounds with
  | [] => .ok ⟨v.symbol, some (.classType (rawTree s .object)), []⟩
  | bound :: bounds =>
    if isInterface then .ok ⟨v.symbol, none, bound :: bounds⟩
      else .ok ⟨v.symbol, some bound, bounds⟩

end TypeVarDecl

namespace ClassDecl

open Signature

def isGeneric (c : ClassDecl) : Bool :=
  !c.typeVariables.isEmpty || (c.superclass.map Shape.isGeneric).getD false ||
    c.interfaces.any Shape.isGeneric

def signature (s : Store) (c : ClassDecl) : Except Unwritable ClassSignature := do
  let typeParameters ← c.typeVariables.mapM (TypeVarDecl.parameter s)
  let superclass ← (c.superclass.map (Shape.classSignature s)).getD (.ok (rawTree s .object))
  let interfaces ← c.interfaces.mapM (Shape.classSignature s)
  .ok ⟨typeParameters, superclass, interfaces⟩

def signatureText? (s : Store) (c : ClassDecl) : Option String :=
  if c.isGeneric then (c.signature s).toOption.map ClassSignature.text else none

end ClassDecl

end JvmTypes
