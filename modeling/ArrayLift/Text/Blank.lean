/-! The characters with the Unicode property White_Space, and trimming by it. -/
namespace ArrayLift.Text

/-- The first and last code points of the runs of characters with the property White_Space. -/
def blankRanges : List (Nat × Nat) :=
  [(0x09, 0x0D), (0x20, 0x20), (0x85, 0x85), (0xA0, 0xA0), (0x1680, 0x1680), (0x2000, 0x200A),
    (0x2028, 0x2029), (0x202F, 0x202F), (0x205F, 0x205F), (0x3000, 0x3000)]

/-- Has the character the property White_Space? -/
def isBlank (c : Char) : Bool :=
  blankRanges.any fun (first, last) => first ≤ c.toNat && c.toNat ≤ last

/-- Drop the leading blank characters. -/
def trimStart (text : List Char) : List Char :=
  text.dropWhile isBlank

/-- Drop the trailing blank characters. -/
def trimEnd (text : List Char) : List Char :=
  (text.reverse.dropWhile isBlank).reverse

end ArrayLift.Text
