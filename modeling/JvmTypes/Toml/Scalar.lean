import JvmTypes.Toml.Value
/-!
# Scalars of a settings document

Strings of the four kinds, integers, floats, booleans and dates. Every reader takes what it knows
from the front of a text and gives back the rest.
-/
namespace JvmTypes.Toml

def hexValue? (c : Char) : Option Nat :=
  if '0' ≤ c && c ≤ '9' then some (c.toNat - 48)
  else if 'a' ≤ c && c ≤ 'f' then some (c.toNat - 87)
  else if 'A' ≤ c && c ≤ 'F' then some (c.toNat - 55)
  else none

def digitsValue (base : Nat) (digits : List Char) : Nat :=
  digits.foldl (fun n c => base * n + (hexValue? c).getD 0) 0

def isControl (c : Char) : Bool := (c.toNat < 0x20 && c ≠ '\t') || c.toNat = 0x7F

def charOf? (n : Nat) : Option Char := if n.isValidChar then some (Char.ofNat n) else none

def readCodePoint (n : Nat) (text : List Char) : Option (Char × List Char) :=
  let digits := text.take n
  if digits.length = n && digits.all fun c => (hexValue? c).isSome then
    (charOf? (digitsValue 16 digits)).map fun c => (c, text.drop n)
  else none

def readEscape : List Char → Option (Char × List Char)
  | 'b' :: rest => some ('\x08', rest)
  | 't' :: rest => some ('\t', rest)
  | 'n' :: rest => some ('\n', rest)
  | 'f' :: rest => some ('\x0c', rest)
  | 'r' :: rest => some ('\r', rest)
  | '\x22' :: rest => some ('\x22', rest)
  | '\\' :: rest => some ('\\', rest)
  | 'u' :: rest => readCodePoint 4 rest
  | 'U' :: rest => readCodePoint 8 rest
  | _ => none

def readBasic : Nat → List Char → Option (List Char × List Char)
  | steps + 1, '\x22' :: rest => let _ := steps; some ([], rest)
  | steps + 1, '\\' :: rest => do
    let (c, rest) ← readEscape rest
    let (cs, rest) ← readBasic steps rest
    some (c :: cs, rest)
  | steps + 1, c :: rest =>
    if isControl c then none
    else (readBasic steps rest).map fun (cs, rest) => (c :: cs, rest)
  | _, _ => none

def readLiteral : List Char → Option (List Char × List Char)
  | [] => none
  | '\x27' :: rest => some ([], rest)
  | c :: rest => if isControl c then none
      else (readLiteral rest).map fun (cs, rest) => (c :: cs, rest)

def newline? : List Char → Option (List Char)
  | '\n' :: rest => some rest
  | '\r' :: '\n' :: rest => some rest
  | _ => none

def isWhite (c : Char) : Bool := c = ' ' || c = '\t'

def skipBlankLines : Nat → List Char → List Char
  | 0, text => text
  | steps + 1, text =>
    match text with
    | ' ' :: rest => skipBlankLines steps rest
    | '\t' :: rest => skipBlankLines steps rest
    | text => match newline? text with
      | some rest => skipBlankLines steps rest
      | none => text

/-- The end of a string in triple quotes: up to two further quotes belong to the string. -/
def closing? (quote : Char) : List Char → Option (List Char × List Char)
  | a :: b :: c :: rest =>
    if a = quote && b = quote && c = quote then
      match rest with
      | d :: e :: rest' =>
        if d = quote && e = quote then some ([quote, quote], rest')
        else if d = quote then some ([quote], e :: rest')
        else some ([], rest)
      | [d] => if d = quote then some ([quote], []) else some ([], rest)
      | [] => some ([], [])
    else none
  | _ => none

/-- A string in triple double quotes behind the opening ones. A backslash at the end of a line drops
the line break and all blanks that follow. -/
def readMultiBasic : Nat → List Char → Option (List Char × List Char)
  | 0, _ => none
  | steps + 1, text =>
    match closing? '\x22' text with
    | some found => some found
    | none =>
      match text with
      | '\\' :: rest =>
        match newline? (rest.dropWhile isWhite) with
        | some rest => readMultiBasic steps (skipBlankLines rest.length rest)
        | none => do
          let (c, rest) ← readEscape rest
          let (cs, rest) ← readMultiBasic steps rest
          some (c :: cs, rest)
      | _ =>
        match newline? text with
        | some rest => (readMultiBasic steps rest).map fun (cs, rest) => ('\n' :: cs, rest)
        | none =>
          match text with
          | [] => none
          | c :: rest =>
            if isControl c then none
            else (readMultiBasic steps rest).map fun (cs, rest) => (c :: cs, rest)

def readMultiLiteral : Nat → List Char → Option (List Char × List Char)
  | 0, _ => none
  | steps + 1, text =>
    match closing? '\x27' text with
    | some found => some found
    | none =>
      match newline? text with
      | some rest => (readMultiLiteral steps rest).map fun (cs, rest) => ('\n' :: cs, rest)
      | none =>
        match text with
        | [] => none
        | c :: rest =>
          if isControl c then none
          else (readMultiLiteral steps rest).map fun (cs, rest) => (c :: cs, rest)

def skipNewline (text : List Char) : List Char := (newline? text).getD text

def readString (text : List Char) : Option (String × List Char) :=
  let steps := text.length + 1
  let found :=
    match text with
    | '\x22' :: '\x22' :: '\x22' :: rest => readMultiBasic steps (skipNewline rest)
    | '\x27' :: '\x27' :: '\x27' :: rest => readMultiLiteral steps (skipNewline rest)
    | '\x22' :: rest => readBasic steps rest
    | '\x27' :: rest => readLiteral rest
    | _ => none
  found.map fun (cs, rest) => (String.ofList cs, rest)

def plainDigits? (isDigit : Char → Bool) : List Char → Option (List Char)
  | [] => none
  | [c] => if isDigit c then some [c] else none
  | c :: '_' :: rest => if isDigit c then (plainDigits? isDigit rest).map (c :: ·) else none
  | c :: rest => if isDigit c then (plainDigits? isDigit rest).map (c :: ·) else none

def decimal? (text : List Char) : Option (List Char) :=
  match plainDigits? Char.isDigit text with
  | some ('0' :: _ :: _) => none
  | digits => digits

def splitSign : List Char → Bool × List Char
  | '+' :: rest => (false, rest)
  | '-' :: rest => (true, rest)
  | text => (false, text)

def isDigitOf (base : Nat) (c : Char) : Bool :=
  ((hexValue? c).map fun v => decide (v < base)).getD false

/-- An integer of 64 bits: decimal with an optional sign, or hexadecimal, octal or binary without
one. -/
def integer? (text : List Char) : Option Int :=
  let value : Option Int :=
    match text with
    | '0' :: 'x' :: rest => (plainDigits? (isDigitOf 16) rest).map fun ds =>
        Int.ofNat (digitsValue 16 ds)
    | '0' :: 'o' :: rest => (plainDigits? (isDigitOf 8) rest).map fun ds =>
        Int.ofNat (digitsValue 8 ds)
    | '0' :: 'b' :: rest => (plainDigits? (isDigitOf 2) rest).map fun ds =>
        Int.ofNat (digitsValue 2 ds)
    | text =>
      let (negative, digits) := splitSign text
      (decimal? digits).map fun ds =>
        if negative then -Int.ofNat (digitsValue 10 ds) else Int.ofNat (digitsValue 10 ds)
  value.filter fun v => -0x8000000000000000 ≤ v && v < 0x8000000000000000

/-- Halfway between the largest double and the next power of two. -/
def doubleBound : Nat := Nat.pow 2 1024 - Nat.pow 2 970

/-- Whether the number that the digits write, times a power of ten, rounds to infinity as a double.
The count of digits in front of the point decides, unless it is the one of the bound. -/
def overflows (digits : List Char) (exponent : Int) : Bool :=
  let significant := digits.dropWhile (· = '0')
  let magnitude := significant.length + exponent
  if significant.isEmpty || magnitude < 309 then false
  else if 309 < magnitude then true
  else doubleBound * Nat.pow 10 (-exponent).toNat ≤
    digitsValue 10 significant * Nat.pow 10 exponent.toNat

/-- A float: a decimal number with a fraction, an exponent or both, or a name for infinity or no
number. A positive number must not be too large for a double. -/
def isFloat (text : List Char) : Bool :=
  let (negative, unsigned) := splitSign text
  if unsigned = ['i', 'n', 'f'] || unsigned = ['n', 'a', 'n'] then true
  else
    let isExponentMark (c : Char) : Bool := c = 'e' || c = 'E'
    let mantissa := unsigned.takeWhile fun c => !isExponentMark c
    let exponent := (unsigned.dropWhile fun c => !isExponentMark c).drop 1
    let hasExponent := mantissa.length < unsigned.length
    let whole := mantissa.takeWhile (· ≠ '.')
    let fraction := (mantissa.dropWhile (· ≠ '.')).drop 1
    let hasFraction := whole.length < mantissa.length
    let places := if hasFraction then plainDigits? Char.isDigit fraction else some []
    let (down, power) := splitSign exponent
    let power := if hasExponent then plainDigits? Char.isDigit power else some []
    match decimal? whole, places, power with
    | some whole, some places, some power =>
      let shift : Int := digitsValue 10 power
      (hasExponent || hasFraction) &&
        (negative ||
          !overflows (whole ++ places) ((if down then -shift else shift) - places.length))
    | _, _, _ => false

def fixedDigits? (n : Nat) (text : List Char) : Option (Nat × List Char) :=
  let digits := text.take n
  if digits.length = n && digits.all Char.isDigit then some (digitsValue 10 digits, text.drop n)
    else none

def daysIn (year month : Nat) : Nat :=
  if month = 2 then
    if year % 4 = 0 && (year % 100 ≠ 0 || year % 400 = 0) then 29 else 28
  else if month ∈ [4, 6, 9, 11] then 30 else 31

def date? (text : List Char) : Option (List Char) := do
  let (year, rest) ← fixedDigits? 4 text
  let rest ← match rest with | '-' :: rest => some rest | _ => none
  let (month, rest) ← fixedDigits? 2 rest
  let rest ← match rest with | '-' :: rest => some rest | _ => none
  let (day, rest) ← fixedDigits? 2 rest
  if 1 ≤ month && month ≤ 12 && 1 ≤ day && day ≤ daysIn year month then some rest else none

def time? (text : List Char) : Option (List Char) := do
  let (hour, rest) ← fixedDigits? 2 text
  let rest ← match rest with | ':' :: rest => some rest | _ => none
  let (minute, rest) ← fixedDigits? 2 rest
  let rest ← match rest with | ':' :: rest => some rest | _ => none
  let (second, rest) ← fixedDigits? 2 rest
  if hour ≤ 23 && minute ≤ 59 && second ≤ 60 then
    match rest with
    | '.' :: rest => if (rest.head?.map Char.isDigit).getD false then
        some (rest.dropWhile Char.isDigit) else none
    | rest => some rest
  else none

/-- Nothing, the letter for the zero offset, or a signed offset in hours and minutes. -/
def isOffset : List Char → Bool
  | [] => true
  | ['Z'] | ['z'] => true
  | sign :: rest =>
    (sign = '+' || sign = '-') &&
      match fixedDigits? 2 rest with
      | some (hour, ':' :: rest) =>
        match fixedDigits? 2 rest with
        | some (minute, []) => hour ≤ 23 && minute ≤ 59
        | _ => false
      | _ => false

def isDatetime (text : List Char) : Bool :=
  match date? text with
  | some [] => true
  | some (c :: rest) => (c = 'T' || c = 't' || c = ' ') && ((time? rest).map isOffset).getD false
  | none => (time? text).map (·.isEmpty) |>.getD false

def isTokenChar (c : Char) : Bool := c.isAlphanum || c ∈ ['+', '-', '_', '.', ':']

/-- The characters of a number, a date or a name at the front of a text. A blank belongs to it
between a date and a time. -/
def splitToken (text : List Char) : List Char × List Char :=
  let token := text.takeWhile isTokenChar
  match text.dropWhile isTokenChar with
  | ' ' :: rest =>
    if (date? token).map (·.isEmpty) |>.getD false then
      if (rest.head?.map Char.isDigit).getD false then
        (token ++ ' ' :: rest.takeWhile isTokenChar, rest.dropWhile isTokenChar)
      else (token, ' ' :: rest)
    else (token, ' ' :: rest)
  | rest => (token, rest)

def readToken (text : List Char) : Option (Value × List Char) :=
  let (token, rest) := splitToken text
  if token = ['t', 'r', 'u', 'e'] then some (.boolean true, rest)
  else if token = ['f', 'a', 'l', 's', 'e'] then some (.boolean false, rest)
  else match integer? token with
    | some n => some (.integer n, rest)
    | none =>
      if isFloat token then some (.float, rest)
      else if isDatetime token then some (.datetime, rest)
      else none

end JvmTypes.Toml
