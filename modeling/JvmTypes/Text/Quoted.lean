import JvmTypes.Text.Printable
/-!
# Quoted text

Text and characters in quotes, as diagnostics show them. A backslash, the quote itself and the usual
control characters have short escapes, other characters that cannot be shown are given by their code
point.
-/
namespace JvmTypes.Text

def codePoint (c : Char) : List Char := Nat.toDigits 16 c.toNat

def quoteChar (quote c : Char) : List Char :=
  if c = quote then ['\\', quote]
  else match c with
    | '\\' => ['\\', '\\']
    | '\x00' => ['\\', '0']
    | '\t' => ['\\', 't']
    | '\r' => ['\\', 'r']
    | '\n' => ['\\', 'n']
    | c => if isEscaped c then ['\\', 'u', '\x7b'] ++ codePoint c ++ ['\x7d'] else [c]

def quoted (text : String) : String :=
  String.ofList ('\x22' :: (text.toList.flatMap (quoteChar '\x22') ++ ['\x22']))

def quotedChar (c : Char) : String :=
  String.ofList ('\x27' :: (quoteChar '\x27' c ++ ['\x27']))

def record (name : String) (fields : List (String × String)) : String :=
  name ++ " \x7b " ++ ", ".intercalate (fields.map fun f => f.1 ++ ": " ++ f.2) ++ " \x7d"

end JvmTypes.Text
