import JvmTypes.Signature.Tree
/-!
# Reading signatures

A recursive-descent reader. Names inside a signature are any non-empty text without the characters
that end them at their place, so the reader accepts more than a compiler writes. Every two nested
calls use up at least one character, which bounds the depth of the recursion by the length of the
text.
-/
namespace JvmTypes.Signature

inductive Reason where
  | unexpectedCharacter
  | trailingCharacters
  | emptyIdentifier
  | emptyTypeParameterList
  | expectedReferenceType
  | unexpectedEnd
  | emptyClassName
  | emptyTypeArgumentList
  deriving DecidableEq

def Reason.text : Reason → String
  | .unexpectedCharacter => "unexpected character"
  | .trailingCharacters => "trailing characters"
  | .emptyIdentifier => "empty identifier"
  | .emptyTypeParameterList => "empty type parameter list"
  | .expectedReferenceType => "expected a reference type"
  | .unexpectedEnd => "unexpected end of signature"
  | .emptyClassName => "empty class name"
  | .emptyTypeArgumentList => "empty type argument list"

structure Invalid where
  signature : String
  reason : Reason
  deriving DecidableEq

def Invalid.message (e : Invalid) : String :=
  "invalid signature " ++ "`" ++ e.signature ++ "`: " ++ e.reason.text

def expect (c : Char) : List Char → Except Reason (List Char)
  | d :: rest => if d = c then .ok rest else .error .unexpectedCharacter
  | [] => .error .unexpectedCharacter

def identifier (ends : List Char) (text : List Char) : Except Reason (List Char × List Char) :=
  match text.takeWhile (· ∉ ends) with
  | [] => .error .emptyIdentifier
  | name => .ok (name, text.dropWhile (· ∉ ends))

def readVariable (text : List Char) : Except Reason (TypeTree × List Char) := do
  let (name, rest) ← identifier [';', '<', '>', ':', '.', '/'] text
  let rest ← expect ';' rest
  .ok (.variable (String.ofList name), rest)

def readQualifiedName (text : List Char) : Except Reason ((String × String) × List Char) := do
  let (qualified, rest) ← identifier ['<', ';', '.'] text
  let (package, name) := Name.splitLast '/' qualified
  if name = [] then .error .emptyClassName
  else .ok ((String.ofList package, String.ofList name), rest)

mutual

def readReference : Nat → List Char → Except Reason (TypeTree × List Char)
  | 0, _ => .error .unexpectedEnd
  | fuel + 1, text =>
    match text with
    | 'L' :: rest => do
      let (c, rest) ← readClassBody fuel rest
      .ok (.classType c, rest)
    | 'T' :: rest => readVariable rest
    | '[' :: rest => do
      let (t, rest) ← readComponent fuel rest
      .ok (.array t, rest)
    | _ :: _ => .error .expectedReferenceType
    | [] => .error .unexpectedEnd

def readComponent : Nat → List Char → Except Reason (TypeTree × List Char)
  | 0, _ => .error .unexpectedEnd
  | fuel + 1, text =>
    match text.head?.bind BaseType.ofLetter? with
    | some b => .ok (.base b, text.tail)
    | none => readReference fuel text

def readClassBody : Nat → List Char → Except Reason (ClassTree × List Char)
  | 0, _ => .error .unexpectedEnd
  | fuel + 1, text => do
    let ((package, name), rest) ← readQualifiedName text
    let (arguments, rest) ← readArguments fuel rest
    readMembers fuel (.top package name arguments) rest

def readMembers : Nat → ClassTree → List Char → Except Reason (ClassTree × List Char)
  | 0, _, _ => .error .unexpectedEnd
  | fuel + 1, outer, text =>
    match text with
    | '.' :: rest => do
      let (name, rest) ← identifier ['<', ';', '.'] rest
      let (arguments, rest) ← readArguments fuel rest
      readMembers fuel (.member outer (String.ofList name) arguments) rest
    | _ => do
      let rest ← expect ';' text
      .ok (outer, rest)

def readArguments : Nat → List Char → Except Reason (List Argument × List Char)
  | 0, _ => .error .unexpectedEnd
  | fuel + 1, text =>
    match text with
    | '<' :: rest => do
      let (arguments, rest) ← readArgumentList fuel rest
      if arguments.isEmpty then .error .emptyTypeArgumentList else .ok (arguments, rest)
    | _ => .ok ([], text)

def readArgumentList : Nat → List Char → Except Reason (List Argument × List Char)
  | 0, _ => .error .unexpectedEnd
  | fuel + 1, text =>
    match text with
    | '>' :: rest => .ok ([], rest)
    | _ => do
      let (argument, rest) ← readArgument fuel text
      let (arguments, rest) ← readArgumentList fuel rest
      .ok (argument :: arguments, rest)

def readArgument : Nat → List Char → Except Reason (Argument × List Char)
  | 0, _ => .error .unexpectedEnd
  | fuel + 1, text =>
    match text with
    | '*' :: rest => .ok (.any, rest)
    | '+' :: rest => do
      let (t, rest) ← readReference fuel rest
      .ok (.extends t, rest)
    | '-' :: rest => do
      let (t, rest) ← readReference fuel rest
      .ok (.super t, rest)
    | _ => do
      let (t, rest) ← readReference fuel text
      .ok (.exact t, rest)

end

/-- More than the depth to which reading `text` can nest. -/
def depthFor (text : List Char) : Nat := 4 * text.length + 4

def readType (text : List Char) : Except Reason (TypeTree × List Char) :=
  readComponent (depthFor text) text

def readReferenceType (text : List Char) : Except Reason (TypeTree × List Char) :=
  readReference (depthFor text) text

def readClass (text : List Char) : Except Reason (ClassTree × List Char) := do
  let rest ← expect 'L' text
  readClassBody (depthFor rest) rest

/-- Interface bounds, each behind a colon. Every bound takes a character, so `fuel` above the length
of the text is never used up; the same holds for the other readers of lists. -/
def readInterfaceBounds : Nat → List Char → Except Reason (List TypeTree × List Char)
  | fuel + 1, ':' :: rest => do
    let (bound, rest) ← readReferenceType rest
    let (bounds, rest) ← readInterfaceBounds fuel rest
    .ok (bound :: bounds, rest)
  | _, text => .ok ([], text)

/-- The class bound may be left out in front of an interface bound or at the end of the list. -/
def readClassBound : List Char → Except Reason (Option TypeTree × List Char)
  | ':' :: rest => .ok (none, ':' :: rest)
  | '>' :: rest => .ok (none, '>' :: rest)
  | text => do
    let (bound, rest) ← readReferenceType text
    .ok (some bound, rest)

def readTypeParameter (text : List Char) : Except Reason (TypeParameter × List Char) := do
  let (name, rest) ← identifier [':', '>', ';', '<'] text
  let rest ← expect ':' rest
  let (classBound, rest) ← readClassBound rest
  let (interfaceBounds, rest) ← readInterfaceBounds (rest.length + 1) rest
  .ok (⟨String.ofList name, classBound, interfaceBounds⟩, rest)

def readTypeParameterList : Nat → List Char → Except Reason (List TypeParameter × List Char)
  | 0, _ => .error .unexpectedEnd
  | _ + 1, '>' :: rest => .ok ([], rest)
  | fuel + 1, text => do
    let (p, rest) ← readTypeParameter text
    let (ps, rest) ← readTypeParameterList fuel rest
    .ok (p :: ps, rest)

def readTypeParameters : List Char → Except Reason (List TypeParameter × List Char)
  | '<' :: rest => do
    let (ps, rest) ← readTypeParameterList (rest.length + 1) rest
    if ps.isEmpty then .error .emptyTypeParameterList else .ok (ps, rest)
  | text => .ok ([], text)

def readClasses : Nat → List Char → Except Reason (List ClassTree × List Char)
  | fuel + 1, c :: text => do
    let (t, rest) ← readClass (c :: text)
    let (ts, rest) ← readClasses fuel rest
    .ok (t :: ts, rest)
  | _, text => .ok ([], text)

def readClassSignature (text : List Char) : Except Reason (ClassSignature × List Char) := do
  let (typeParameters, rest) ← readTypeParameters text
  let (superclass, rest) ← readClass rest
  let (interfaces, rest) ← readClasses (rest.length + 1) rest
  .ok (⟨typeParameters, superclass, interfaces⟩, rest)

def readParameters : Nat → List Char → Except Reason (List TypeTree × List Char)
  | 0, _ => .error .unexpectedEnd
  | _ + 1, ')' :: rest => .ok ([], rest)
  | fuel + 1, text => do
    let (t, rest) ← readType text
    let (ts, rest) ← readParameters fuel rest
    .ok (t :: ts, rest)

def readReturn : List Char → Except Reason (Option TypeTree × List Char)
  | 'V' :: rest => .ok (none, rest)
  | text => do
    let (t, rest) ← readType text
    .ok (some t, rest)

def readThrown : List Char → Except Reason (TypeTree × List Char)
  | 'T' :: rest => readVariable rest
  | text => do
    let (c, rest) ← readClass text
    .ok (.classType c, rest)

def readThrows : Nat → List Char → Except Reason (List TypeTree × List Char)
  | fuel + 1, '^' :: rest => do
    let (t, rest) ← readThrown rest
    let (ts, rest) ← readThrows fuel rest
    .ok (t :: ts, rest)
  | _, text => .ok ([], text)

def readMethodSignature (text : List Char) : Except Reason (MethodSignature × List Char) := do
  let (typeParameters, rest) ← readTypeParameters text
  let rest ← expect '(' rest
  let (parameters, rest) ← readParameters (rest.length + 1) rest
  let (returnType, rest) ← readReturn rest
  let (throws, rest) ← readThrows (rest.length + 1) rest
  .ok (⟨typeParameters, parameters, returnType, throws⟩, rest)

def whole (reader : List Char → Except Reason (α × List Char)) (text : String) : Except Invalid α :=
  match reader text.toList with
  | .ok (a, []) => .ok a
  | .ok (_, _ :: _) => .error ⟨text, .trailingCharacters⟩
  | .error reason => .error ⟨text, reason⟩

def TypeTree.parse : String → Except Invalid TypeTree := whole readReferenceType
def ClassSignature.parse : String → Except Invalid ClassSignature := whole readClassSignature
def MethodSignature.parse : String → Except Invalid MethodSignature := whole readMethodSignature

end JvmTypes.Signature
