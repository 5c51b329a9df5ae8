import JvmTypes.Store
/-!
# Names of types

The texts by which the classes of a store make types known: descriptors, runtime names and names as
in source code.
-/
namespace JvmTypes

namespace Erased

def descriptor (s : Store) : Erased → String
  | .void => "V"
  | .primitive b => b.letter.toString
  | .cls id => "L" ++ Name.toInternal (s.name id) ++ ";"
  | .array c => "[" ++ c.descriptor s

def typeName (s : Store) : Erased → String
  | .void => "void"
  | .primitive b => b.keyword
  | .cls id => s.name id
  | .array c => c.typeName s ++ "[]"

def internalName (s : Store) : Erased → String
  | .cls id => Name.toInternal (s.name id)
  | .array c => (Erased.array c).descriptor s
  | e => e.typeName s

def name (s : Store) : Erased → String
  | .array c => Name.toBinary ((Erased.array c).descriptor s)
  | e => e.typeName s

end Erased

namespace Shape

/-- The name of a member class inside the type `owner`: without the name of its outer class, where
it starts with that. -/
def memberName (s : Store) (owner : Shape) (raw : ClassId) : String :=
  ((owner.erasure?.map (Erased.typeName s)).bind fun outer => Name.member? outer (s.name raw)).getD
    (s.name raw)

mutual

def typeName (s : Store) : Shape → String
  | .plain e => e.typeName s
  | .array c => c.typeName s ++ "[]"
  | .applied raw as none => s.name raw ++ argumentNames s as
  | .applied raw as (some owner) =>
      owner.typeName s ++ "." ++ memberName s owner raw ++ argumentNames s as
  | .upper (.plain e) => if e = .object then "?" else "? extends " ++ e.typeName s
  | .upper b => "? extends " ++ b.typeName s
  | .lower b => "? super " ++ b.typeName s
  | .variable v => v.symbol

def argumentNames (s : Store) : List Shape → String
  | [] => ""
  | a :: as => "<" ++ a.typeName s ++ furtherNames s as ++ ">"

def furtherNames (s : Store) : List Shape → String
  | [] => ""
  | a :: as => ", " ++ a.typeName s ++ furtherNames s as

end

end Shape

end JvmTypes
