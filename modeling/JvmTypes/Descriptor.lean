import JvmTypes.BaseType
/-!
# Descriptors

Field and method descriptors as trees, with a reader and a writer. A class name inside a descriptor
is any non-empty text up to the next `;`, and the reader accepts a text only as a whole.
-/
namespace JvmTypes

inductive FieldType where
  | base (type : BaseType)
  /-- A class, by internal name. -/
  | object (name : String)
  | array (component : FieldType)
  deriving DecidableEq

/-- A method descriptor; no return type stands for `void`. -/
structure MethodDescriptor where
  parameters : List FieldType
  returnType : Option FieldType
  deriving DecidableEq

namespace Descriptor

structure Invalid where
  text : String
  deriving DecidableEq

def Invalid.message (e : Invalid) : String := "invalid descriptor: " ++ e.text

def write : FieldType → List Char
  | .base b => [b.letter]
  | .object name => 'L' :: (name.toList ++ [';'])
  | .array component => '[' :: write component

def writeMethod (d : MethodDescriptor) : List Char :=
  '(' :: (d.parameters.flatMap write ++
    ')' :: (match d.returnType with | none => ['V'] | some t => write t))

def read : List Char → Option (FieldType × List Char)
  | [] => none
  | c :: rest =>
    match BaseType.ofLetter? c with
    | some b => some (.base b, rest)
    | none =>
      if c = '[' then (read rest).map fun (t, rest) => (.array t, rest)
      else if c = 'L' then
        match rest.takeWhile (· ≠ ';'), rest.dropWhile (· ≠ ';') with
        | n :: name, _ :: rest => some (.object (String.ofList (n :: name)), rest)
        | _, _ => none
      else none

/-- Field types up to the closing parenthesis. Every field type takes a character, so `fuel` above
the length of the text is never used up. -/
def readParameters : Nat → List Char → Option (List FieldType × List Char)
  | 0, _ => none
  | _ + 1, ')' :: rest => some ([], rest)
  | fuel + 1, text => do
    let (t, rest) ← read text
    let (ts, rest) ← readParameters fuel rest
    some (t :: ts, rest)

def readReturn : List Char → Option (Option FieldType × List Char)
  | 'V' :: rest => some (none, rest)
  | text => (read text).map fun (t, rest) => (some t, rest)

def readMethod : List Char → Option (MethodDescriptor × List Char)
  | '(' :: rest => do
    let (ts, rest) ← readParameters (rest.length + 1) rest
    let (r, rest) ← readReturn rest
    some (⟨ts, r⟩, rest)
  | _ => none

/-- The value a reader finds if it uses up the whole text. -/
def whole (reader : List Char → Option (α × List Char)) (text : String) : Except Invalid α :=
  match reader text.toList with
  | some (a, []) => .ok a
  | _ => .error ⟨text⟩

end Descriptor

def FieldType.parse : String → Except Descriptor.Invalid FieldType :=
  Descriptor.whole Descriptor.read

def FieldType.descriptor (t : FieldType) : String := String.ofList (Descriptor.write t)

def MethodDescriptor.parse : String → Except Descriptor.Invalid MethodDescriptor :=
  Descriptor.whole Descriptor.readMethod

def MethodDescriptor.descriptor (d : MethodDescriptor) : String :=
  String.ofList (Descriptor.writeMethod d)

end JvmTypes
