/-!
# White space

The characters with the Unicode property `White_Space`, and the three ways to trim a text by
them. `trim` is what "blank" means everywhere in this library: a name, a query or a setting is
blank when nothing is left of it.
-/

namespace Bulletin.Text

/-- The code points with the property `White_Space`, as closed ranges. -/
def blankRanges : List (Nat × Nat) :=
  [(0x09, 0x0D), (0x20, 0x20), (0x85, 0x85), (0xA0, 0xA0), (0x1680, 0x1680), (0x2000, 0x200A),
   (0x2028, 0x2029), (0x202F, 0x202F), (0x205F, 0x205F), (0x3000, 0x3000)]

/-- Whether a character is white space. -/
def isBlank (c : Char) : Bool :=
  blankRanges.any fun r => decide (r.1 ≤ c.toNat ∧ c.toNat ≤ r.2)

def trimStart (text : List Char) : List Char := text.dropWhile isBlank

def trimEnd (text : List Char) : List Char := (text.reverse.dropWhile isBlank).reverse

def trim (text : List Char) : List Char := trimEnd (trimStart text)

/-- Whether a text consists of white space only. -/
def blank (s : String) : Bool := s.toList.all isBlank

/-- The text with its capital ASCII letters made small. -/
def lower (s : String) : String := String.ofList (s.toList.map Char.toLower)

/-- The text with its small ASCII letters made capital. -/
def upper (s : String) : String := String.ofList (s.toList.map Char.toUpper)

/-- Splits at every occurrence of a separator; there is always at least one part. -/
def splitOn (separator : Char) : List Char → List (List Char)
  | [] => [[]]
  | c :: rest =>
    if c = separator then [] :: splitOn separator rest
    else match splitOn separator rest with
      | [] => [[c]]
      | part :: parts => (c :: part) :: parts

end Bulletin.Text
