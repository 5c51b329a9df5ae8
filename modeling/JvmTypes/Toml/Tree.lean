import JvmTypes.Toml.Value
/-!
# Tables under construction

Headers and dotted keys build the tables of a document bit by bit. How a table came to be decides
what may still be added to it: a table is defined by one header at most, dotted keys put values only
into tables that dotted keys made, and values, inline tables included, are never extended.
-/
namespace JvmTypes.Toml

inductive Origin where
  /-- On the way to a table that a header names. -/
  | implicit
  | dotted
  | header
  deriving DecidableEq

inductive Node where
  | value (v : Value)
  | table (origin : Origin) (entries : List (String × Node))
  /-- An array of tables, by one header for each. -/
  | tables (elements : List (List (String × Node)))

abbrev Entries := List (String × Node)

mutual

def Node.toValue : Node → Value
  | .value v => v
  | .table _ entries => .table (Node.toValues entries)
  | .tables elements => .array (Node.toTables elements)

def Node.toValues : List (String × Node) → List (String × Value)
  | [] => []
  | (key, node) :: rest => (key, node.toValue) :: Node.toValues rest

def Node.toTables : List (List (String × Node)) → List Value
  | [] => []
  | entries :: rest => .table (Node.toValues entries) :: Node.toTables rest

end

namespace Entries

/-- Changes the table behind the header path `path`; the last table of an array stands for the
array. -/
def within : List String → (Entries → Option Entries) → Entries → Option Entries
  | [], f, es => f es
  | key :: path, f, es =>
    match lookup? key es with
    | none => (within path f []).map fun inner => put key (.table .implicit inner) es
    | some (.value _) => none
    | some (.table origin inner) => (within path f inner).map fun inner =>
        put key (.table origin inner) es
    | some (.tables elements) =>
      match elements.getLast? with
      | none => none
      | some last => (within path f last).map fun last =>
          put key (.tables (elements.dropLast ++ [last])) es

/-- Sets the value behind a dotted key. Tables on the way must not have a header of their own, and
the last of them must come from dotted keys. The last table of an array stands for the array, but
never as the last on the way. -/
def setDotted (key : String) (value : Value) : List String → Entries → Option Entries
  | [], es => if (lookup? key es).isSome then none else some (put key (.value value) es)
  | step :: path, es =>
    match lookup? step es with
    | none => (setDotted key value path []).map fun inner => put step (.table .dotted inner) es
    | some (.table origin inner) =>
      if origin = .header || (path.isEmpty && origin ≠ .dotted) then none
      else (setDotted key value path inner).map fun inner => put step (.table origin inner) es
    | some (.tables elements) =>
      match elements.getLast? with
      | none => none
      | some last =>
        if path.isEmpty then none
        else (setDotted key value path last).map fun last =>
          put step (.tables (elements.dropLast ++ [last])) es
    | some (.value _) => none

def openTable (key : String) (es : Entries) : Option Entries :=
  match lookup? key es with
  | none => some (put key (.table .header []) es)
  | some (.table .implicit inner) => some (put key (.table .header inner) es)
  | some _ => none

def openElement (key : String) (es : Entries) : Option Entries :=
  match lookup? key es with
  | none => some (put key (.tables [[]]) es)
  | some (.tables elements) => some (put key (.tables (elements ++ [[]])) es)
  | some _ => none

end Entries

end JvmTypes.Toml
