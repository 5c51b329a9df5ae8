/-!
# Primitive types

The eight primitive types with the letter a descriptor writes for them, the keyword that names them
and the number of stack slots a value takes.
-/
namespace JvmTypes

inductive BaseType where
  | boolean | byte | char | short | int | long | float | double
  deriving DecidableEq

namespace BaseType

def all : List BaseType := [boolean, byte, char, short, int, long, float, double]

def letter : BaseType → Char
  | boolean => 'Z'
  | byte => 'B'
  | char => 'C'
  | short => 'S'
  | int => 'I'
  | long => 'J'
  | float => 'F'
  | double => 'D'

def ofLetter? : Char → Option BaseType
  | 'Z' => some boolean
  | 'B' => some byte
  | 'C' => some char
  | 'S' => some short
  | 'I' => some int
  | 'J' => some long
  | 'F' => some float
  | 'D' => some double
  | _ => none

def keyword : BaseType → String
  | boolean => "boolean"
  | byte => "byte"
  | char => "char"
  | short => "short"
  | int => "int"
  | long => "long"
  | float => "float"
  | double => "double"

def slots : BaseType → Nat
  | long | double => 2
  | _ => 1

@[simp] theorem ofLetter?_letter (b : BaseType) : ofLetter? b.letter = some b := by
  cases b <;> rfl

theorem letter_of_ofLetter? {c : Char} {b : BaseType} (h : ofLetter? c = some b) :
    b.letter = c := by
  unfold ofLetter? at h
  split at h <;> first | (obtain rfl := Option.some.inj h; rfl) | simp at h

end BaseType

end JvmTypes
