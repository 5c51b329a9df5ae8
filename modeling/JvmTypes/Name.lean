/-!
# Class names

A binary name separates its parts with `.` (`java.util.Map$Entry`), an internal name with `/`.
-/
namespace JvmTypes.Name

def replaceChar (a b : Char) (text : String) : String :=
  String.ofList (text.toList.map fun c => if c = a then b else c)

def toBinary (internal : String) : String := replaceChar '/' '.' internal

def toInternal (binary : String) : String := replaceChar '.' '/' binary

/-- Splits at the last occurrence of `sep`; without one the first part is empty. -/
def splitLast (sep : Char) (cs : List Char) : List Char × List Char :=
  match cs.reverse.dropWhile (· ≠ sep) with
  | [] => ([], cs)
  | _ :: front => (front.reverse, (cs.reverse.takeWhile (· ≠ sep)).reverse)

def package (binary : String) : String := String.ofList (splitLast '.' binary.toList).1

def ofDescriptor? (descriptor : String) : Option String :=
  match descriptor.toList with
  | 'L' :: rest => if rest.getLast? = some ';' then some (String.ofList rest.dropLast) else none
  | _ => none

def after? (front name : String) : Option String :=
  if front.toList.isPrefixOf name.toList then some (String.ofList (name.toList.drop front.length))
    else none

/-- The simple name of the member class `inner` of `outer`: what stands behind `outer$`. -/
def member? (outer inner : String) : Option String :=
  (after? outer inner).bind (after? "$")

end JvmTypes.Name
