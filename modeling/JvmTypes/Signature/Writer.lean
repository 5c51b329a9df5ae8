import JvmTypes.Signature.Tree
/-!
# Written signatures

The text of a signature tree.
-/
namespace JvmTypes.Signature

mutual

def TypeTree.write : TypeTree → List Char
  | .base b => [b.letter]
  | .classType c => c.writeOpen ++ [';']
  | .variable name => 'T' :: (name.toList ++ [';'])
  | .array component => '[' :: component.write

def ClassTree.writeOpen : ClassTree → List Char
  | .top package name arguments =>
    'L' :: ((if package = "" then [] else package.toList ++ ['/']) ++ name.toList ++
      writeArguments arguments)
  | .member outer name arguments =>
      outer.writeOpen ++ '.' :: (name.toList ++ writeArguments arguments)

def writeArguments : List Argument → List Char
  | [] => []
  | a :: as => '<' :: (a.write ++ writeRest as ++ ['>'])

def writeRest : List Argument → List Char
  | [] => []
  | a :: as => a.write ++ writeRest as

def Argument.write : Argument → List Char
  | .any => ['*']
  | .exact t => t.write
  | .extends t => '+' :: t.write
  | .super t => '-' :: t.write

end

def ClassTree.write (c : ClassTree) : List Char := c.writeOpen ++ [';']

def TypeParameter.write (p : TypeParameter) : List Char :=
  p.name.toList ++ ':' :: ((p.classBound.map TypeTree.write).getD [] ++
    p.interfaceBounds.flatMap fun bound => ':' :: bound.write)

def writeTypeParameters : List TypeParameter → List Char
  | [] => []
  | ps => '<' :: (ps.flatMap TypeParameter.write ++ ['>'])

def ClassSignature.write (s : ClassSignature) : List Char :=
  writeTypeParameters s.typeParameters ++ s.superclass.write ++ s.interfaces.flatMap ClassTree.write

def MethodSignature.write (s : MethodSignature) : List Char :=
  writeTypeParameters s.typeParameters ++
    '(' :: (s.parameters.flatMap TypeTree.write ++
      ')' :: ((match s.returnType with | none => ['V'] | some t => t.write) ++
        s.throws.flatMap fun thrown => '^' :: thrown.write))

def TypeTree.text (t : TypeTree) : String := String.ofList t.write
def ClassTree.text (t : ClassTree) : String := String.ofList t.write
def ClassSignature.text (s : ClassSignature) : String := String.ofList s.write
def MethodSignature.text (s : MethodSignature) : String := String.ofList s.write

end JvmTypes.Signature
