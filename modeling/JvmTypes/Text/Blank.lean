/-!
# Blanks

The characters that count as white space, and trimming by them.
-/
namespace JvmTypes.Text

/-- White space of any script: the ASCII blanks and the separators beyond. -/
def isBlank (c : Char) : Bool :=
  let n := c.toNat
  (0x09 ≤ n && n ≤ 0x0D) || n ∈ [0x20, 0x85, 0xA0, 0x1680, 0x2028, 0x2029, 0x202F, 0x205F,
    0x3000] ||
    (0x2000 ≤ n && n ≤ 0x200A)

def trim (text : String) : String :=
  String.ofList ((text.toList.dropWhile isBlank).reverse.dropWhile isBlank).reverse

def lowerAscii (text : String) : String := String.ofList (text.toList.map Char.toLower)

/-- The pieces between the commas of a text; an empty text has one piece. -/
def splitCommas : List Char → List (List Char)
  | [] => [[]]
  | c :: cs =>
    match c, splitCommas cs with
    | ',', pieces => [] :: pieces
    | c, piece :: pieces => (c :: piece) :: pieces
    | c, [] => [[c]]

end JvmTypes.Text
