/-!
# Access flags

The access and property bits of a class, field or method. Some bits mean different things on
different kinds of declaration; the names below are those they have on methods and classes.
-/
namespace JvmTypes

structure AccessFlags where
  bits : UInt16
  deriving DecidableEq

namespace AccessFlags

def publicBit : UInt16 := 0x0001
def privateBit : UInt16 := 0x0002
def protectedBit : UInt16 := 0x0004
def staticBit : UInt16 := 0x0008
def finalBit : UInt16 := 0x0010
def synchronizedBit : UInt16 := 0x0020
def bridgeBit : UInt16 := 0x0040
def varargsBit : UInt16 := 0x0080
def nativeBit : UInt16 := 0x0100
def interfaceBit : UInt16 := 0x0200
def abstractBit : UInt16 := 0x0400
def syntheticBit : UInt16 := 0x1000
def annotationBit : UInt16 := 0x2000
def enumBit : UInt16 := 0x4000

def empty : AccessFlags := ⟨0⟩

def ofBits (masks : List UInt16) : AccessFlags := ⟨masks.foldl (· ||| ·) 0⟩

def contains (f : AccessFlags) (mask : UInt16) : Bool := f.bits &&& mask == mask

def set (f : AccessFlags) (mask : UInt16) : AccessFlags := ⟨f.bits ||| mask⟩

def clear (f : AccessFlags) (mask : UInt16) : AccessFlags := ⟨f.bits &&& ~~~mask⟩

def keep (f : AccessFlags) (mask : UInt16) : AccessFlags := ⟨f.bits &&& mask⟩

def isPublic (f : AccessFlags) : Bool := f.contains publicBit
def isPrivate (f : AccessFlags) : Bool := f.contains privateBit
def isProtected (f : AccessFlags) : Bool := f.contains protectedBit
def isStatic (f : AccessFlags) : Bool := f.contains staticBit
def isFinal (f : AccessFlags) : Bool := f.contains finalBit
def isBridge (f : AccessFlags) : Bool := f.contains bridgeBit
def isVarargs (f : AccessFlags) : Bool := f.contains varargsBit
def isNative (f : AccessFlags) : Bool := f.contains nativeBit
def isInterface (f : AccessFlags) : Bool := f.contains interfaceBit
def isAbstract (f : AccessFlags) : Bool := f.contains abstractBit
def isSynthetic (f : AccessFlags) : Bool := f.contains syntheticBit
def isAnnotationType (f : AccessFlags) : Bool := f.contains annotationBit
def isEnum (f : AccessFlags) : Bool := f.contains enumBit

def isPackagePrivate (f : AccessFlags) : Bool :=
  f.bits &&& (publicBit ||| protectedBit ||| privateBit) == 0

/-- The modifiers that may be written on a method in source code, in the order in which they are
written. -/
def methodModifiers : List (UInt16 × String) :=
  [(publicBit, "public"), (protectedBit, "protected"), (privateBit, "private"),
    (abstractBit, "abstract"), (staticBit, "static"), (finalBit, "final"),
    (synchronizedBit, "synchronized"), (nativeBit, "native")]

def sourceMethodMask : UInt16 := (ofBits (methodModifiers.map (·.1))).bits

def methodKeywords (f : AccessFlags) : String :=
  " ".intercalate ((methodModifiers.filter fun m => f.contains m.1).map (·.2))

def keywordsBefore (f : AccessFlags) : String :=
  if f.methodKeywords = "" then "" else f.methodKeywords ++ " "

def hex (f : AccessFlags) : String :=
  String.ofList ([12, 8, 4, 0].map fun shift => Nat.digitChar (f.bits.toNat >>> shift % 16))

def display (f : AccessFlags) : String := "AccessFlags(0x" ++ f.hex ++ ")"

end AccessFlags

end JvmTypes
