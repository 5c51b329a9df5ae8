import JvmTypes.Toml.Scalar
import JvmTypes.Toml.Tree
/-!
# Reading settings documents

A document is a sequence of lines: headers, keys with values, comments. There is no value for a
document that breaks a rule.
-/
namespace JvmTypes.Toml

def skipWhite (text : List Char) : List Char := text.dropWhile isWhite

def skipComment? : List Char → Option (List Char)
  | '#' :: rest =>
    let body := rest.takeWhile fun c => c ≠ '\n' && c ≠ '\r'
    if body.any isControl then none else some (rest.drop body.length)
  | text => some text

def skipFiller : Nat → List Char → Option (List Char)
  | 0, _ => none
  | steps + 1, text => do
    let text ← skipComment? (skipWhite text)
    match newline? text with
    | some rest => skipFiller steps rest
    | none => some text

def isBareKeyChar (c : Char) : Bool := c.isAlphanum || c = '_' || c = '-'

def readSimpleKey (text : List Char) : Option (String × List Char) :=
  match text with
  | '\x22' :: rest => (readBasic (rest.length + 1) rest).map fun (cs, rest) =>
      (String.ofList cs, rest)
  | '\x27' :: rest => (readLiteral rest).map fun (cs, rest) => (String.ofList cs, rest)
  | text =>
    match text.takeWhile isBareKeyChar with
    | [] => none
    | key => some (String.ofList key, text.dropWhile isBareKeyChar)

def readKeyParts : Nat → List Char → Option (List String × List Char)
  | 0, _ => none
  | steps + 1, text => do
    let (key, rest) ← readSimpleKey (skipWhite text)
    match skipWhite rest with
    | '.' :: rest =>
      let (keys, rest) ← readKeyParts steps rest
      some (key :: keys, rest)
    | rest => some ([key], rest)

/-- How deep arrays and inline tables may stand in each other, and how many parts a key may have. -/
def maxNesting : Nat := 79

def readKey (text : List Char) : Option (List String × List Char) :=
  (readKeyParts (text.length + 1) text).filter fun (keys, _) => keys.length ≤ maxNesting

def splitKey (keys : List String) : List String × String := (keys.dropLast, keys.getLast?.getD "")

mutual

def readNested (depth : Nat) : Nat → List Char → Option (Value × List Char)
  | 0, _ => none
  | steps + 1, text =>
    match text, depth with
    | '[' :: _, 0 | '\x7b' :: _, 0 => none
    | '[' :: rest, depth + 1 => do
      let (elements, rest) ← readElements depth steps rest
      some (.array elements, rest)
    | '\x7b' :: rest, depth + 1 =>
      match skipWhite rest with
      | '\x7d' :: rest => some (.table [], rest)
      | rest => do
        let (entries, rest) ← readInline depth steps [] rest
        some (.table (Node.toValues entries), rest)
    | '\x22' :: _, _ | '\x27' :: _, _ => (readString text).map fun (s, rest) => (.string s, rest)
    | _, _ => readToken text

def readElements (depth : Nat) : Nat → List Char → Option (List Value × List Char)
  | 0, _ => none
  | steps + 1, text => do
    match ← skipFiller (text.length + 1) text with
    | ']' :: rest => some ([], rest)
    | text =>
      let (v, rest) ← readNested depth steps text
      match ← skipFiller (rest.length + 1) rest with
      | ',' :: rest =>
        let (vs, rest) ← readElements depth steps rest
        some (v :: vs, rest)
      | ']' :: rest => some ([v], rest)
      | _ => none

def readInline (depth : Nat) : Nat → Entries → List Char → Option (Entries × List Char)
  | 0, _, _ => none
  | steps + 1, entries, text => do
    let (keys, rest) ← readKey text
    match rest with
    | '=' :: rest =>
      let (v, rest) ← readNested depth steps (skipWhite rest)
      let (path, key) := splitKey keys
      let entries ← Entries.setDotted key v path entries
      match skipWhite rest with
      | ',' :: rest => readInline depth steps entries rest
      | '\x7d' :: rest => some (entries, rest)
      | _ => none
    | _ => none

end

def readValue (text : List Char) : Option (Value × List Char) :=
  readNested maxNesting (2 * text.length + 2) text

/-- A document being read: its tables and the path of the table that a header has opened. -/
structure Draft where
  root : Entries := []
  current : List String := []

def readHeader (closing : List Char) (enter : String → Entries → Option Entries) (draft : Draft)
    (text : List Char) : Option (Draft × List Char) := do
  let (keys, rest) ← readKey text
  if closing.isPrefixOf rest then
    let (path, key) := splitKey keys
    let root ← draft.root.within path (enter key)
    some (⟨root, keys⟩, rest.drop closing.length)
  else none

def readKeyValue (draft : Draft) (text : List Char) : Option (Draft × List Char) := do
  let (keys, rest) ← readKey text
  match rest with
  | '=' :: rest =>
    let (v, rest) ← readValue (skipWhite rest)
    let (path, key) := splitKey keys
    let root ← draft.root.within draft.current (Entries.setDotted key v path)
    some ({ draft with root := root }, rest)
  | _ => none

def readStatement (draft : Draft) (text : List Char) : Option (Draft × List Char) :=
  match text with
  | [] | '#' :: _ | '\n' :: _ | '\r' :: _ => some (draft, text)
  | '[' :: '[' :: rest => readHeader [']', ']'] Entries.openElement draft rest
  | '[' :: rest => readHeader [']'] Entries.openTable draft rest
  | text => readKeyValue draft text

def readLines : Nat → Draft → List Char → Option Draft
  | 0, _, _ => none
  | steps + 1, draft, text => do
    let (draft, rest) ← readStatement draft (skipWhite text)
    let rest ← skipComment? (skipWhite rest)
    match rest with
    | [] => some draft
    | rest =>
      let rest ← newline? rest
      readLines steps draft rest

/-- The top-level entries of a document. A byte order mark in front is no part of it. -/
def parse? (text : String) : Option (List (String × Value)) :=
  let cs := match text.toList with | '\uFEFF' :: rest => rest | cs => cs
  (readLines (cs.length + 1) {} cs).map fun draft => Node.toValues draft.root

end JvmTypes.Toml
