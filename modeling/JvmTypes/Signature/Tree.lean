import JvmTypes.BaseType
import JvmTypes.Name
/-!
# Generic signatures

The trees of field, method and class signatures. A class type is a chain of segments that starts
with the outermost class; nesting it to the left makes it non-empty and lets every segment carry its
own arguments.
-/
namespace JvmTypes.Signature

mutual

/-- A reference type, or a primitive where one may stand. -/
inductive TypeTree where
  | base (type : BaseType)
  | classType (type : ClassTree)
  | variable (name : String)
  | array (component : TypeTree)

inductive ClassTree where
  /-- The outermost class, in a package written with `/` and without the last one. -/
  | top (package name : String) (arguments : List Argument)
  | member (outer : ClassTree) (name : String) (arguments : List Argument)

inductive Argument where
  | any
  | exact (type : TypeTree)
  | extends (bound : TypeTree)
  | super (bound : TypeTree)

end

structure TypeParameter where
  name : String
  classBound : Option TypeTree
  interfaceBounds : List TypeTree

structure ClassSignature where
  typeParameters : List TypeParameter
  superclass : ClassTree
  interfaces : List ClassTree

structure MethodSignature where
  typeParameters : List TypeParameter
  parameters : List TypeTree
  returnType : Option TypeTree
  throws : List TypeTree

namespace ClassTree

/-- A class that is a member of no other and has no arguments, from its internal name. -/
def raw (internal : String) : ClassTree :=
  let (package, name) := Name.splitLast '/' internal.toList
  .top (String.ofList package) (String.ofList name) []

def package : ClassTree → String
  | .top package _ _ => package
  | .member outer _ _ => outer.package

def segments : ClassTree → List (String × List Argument)
  | .top _ name arguments => [(name, arguments)]
  | .member outer name arguments => outer.segments ++ [(name, arguments)]

/-- The internal name of the innermost class: member classes are joined with `$`. -/
def internalName : ClassTree → String
  | .top package name _ => if package = "" then name else package ++ "/" ++ name
  | .member outer name _ => outer.internalName ++ "$" ++ name

def withArguments (arguments : List Argument) : ClassTree → ClassTree
  | .top package name _ => .top package name arguments
  | .member outer name _ => .member outer name arguments

end ClassTree

namespace TypeParameter

def bounds (p : TypeParameter) : List TypeTree := p.classBound.toList ++ p.interfaceBounds

end TypeParameter

end JvmTypes.Signature
