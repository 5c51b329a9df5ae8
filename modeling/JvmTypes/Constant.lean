/-!
# Constants

Values of the constant kinds. Floating-point constants are carried as their bits and compared as
IEEE values: a NaN differs from itself and the two zeros are equal.
-/
namespace JvmTypes

inductive Constant where
  | byte (value : Int8)
  | char (value : Char)
  | short (value : Int16)
  | int (value : Int32)
  | long (value : Int64)
  | float (bits : UInt32)
  | double (bits : UInt64)
  | boolean (value : Bool)
  | string (value : String)
  deriving DecidableEq

namespace Constant

def isNaN32 (bits : UInt32) : Bool := bits &&& 0x7fffffff > 0x7f800000

def isNaN64 (bits : UInt64) : Bool := bits &&& 0x7fffffffffffffff > 0x7ff0000000000000

/-- Equality of the values that the bits of two floats stand for. -/
def sameFloat (a b : UInt32) : Bool :=
  !isNaN32 a && !isNaN32 b && (a == b || (a ||| b) &&& 0x7fffffff == 0)

def sameDouble (a b : UInt64) : Bool :=
  !isNaN64 a && !isNaN64 b && (a == b || (a ||| b) &&& 0x7fffffffffffffff == 0)

def same : Constant → Constant → Bool
  | float a, float b => sameFloat a b
  | double a, double b => sameDouble a b
  | a, b => a = b

def kind : Constant → String
  | byte _ => "Byte"
  | char _ => "Character"
  | short _ => "Short"
  | int _ => "Integer"
  | long _ => "Long"
  | float _ => "Float"
  | double _ => "Double"
  | boolean _ => "Boolean"
  | string _ => "String"

end Constant

end JvmTypes
