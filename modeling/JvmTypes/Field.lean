import JvmTypes.Naming
import JvmTypes.ShapeError
import JvmTypes.Signature.OfShape
import JvmTypes.Substitution
/-!
# Fields

A field as declared, or as seen through a type that applies its class to arguments.
-/
namespace JvmTypes

structure Field where
  owner : ClassId
  /-- The type through which the field is seen. -/
  declaringType : Shape
  decl : FieldDecl
  type : Shape

namespace Field

def ofDecl (owner : ClassId) (decl : FieldDecl) : Field := ⟨owner, .ofClass owner, decl, decl.type⟩

def through (f : Field) (declaringType : Shape) (σ : Substitution) : Field :=
  { f with declaringType := declaringType, type := f.decl.type.subst σ }

def name (f : Field) : String := f.decl.name

/-- Fields are the same if their class and name are, however they are seen. -/
def same (f g : Field) : Bool := f.owner = g.owner && f.name = g.name

def descriptor (s : Store) (f : Field) : Except ShapeError String := do
  let e ← f.type.erasure
  .ok (e.descriptor s)

def signatureText? (s : Store) (f : Field) : Option String := f.type.signatureText? s

def isVisibleTo (s : Store) (f : Field) (viewer : Erased) : Bool :=
  let owner := Erased.cls f.owner
  owner.isVisibleTo s viewer &&
    (f.decl.flags.isPublic || viewer = owner ||
      (f.decl.flags.isProtected && owner.isAssignable s viewer) ||
      (!f.decl.flags.isPrivate && viewer.isSamePackage s owner))

def text (s : Store) (f : Field) : Except ShapeError String := do
  let e ← f.type.erasure
  .ok (f.decl.flags.keywordsBefore ++ e.name s ++ " " ++ s.name f.owner ++ "." ++ f.name)

def display (s : Store) (f : Field) : String :=
  Text.record "FieldDescription"
    [("declaring_type", Text.quoted (f.declaringType.typeName s)), ("name", Text.quoted f.name),
      ("type", Text.quoted (f.type.typeName s))]

end Field

end JvmTypes
