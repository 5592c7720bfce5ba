/-!
# Blank text

White space is the Unicode property White_Space: 25 code points in ten ranges. A text is blank when
every character of it is white space; the empty text is blank.
-/

namespace RowPolicy.Text

/-- The code points with the property White_Space, as closed ranges, ascending and apart. -/
def blankRanges : List (Nat × Nat) :=
  [(0x09, 0x0D), (0x20, 0x20), (0x85, 0x85), (0xA0, 0xA0), (0x1680, 0x1680), (0x2000, 0x200A),
   (0x2028, 0x2029), (0x202F, 0x202F), (0x205F, 0x205F), (0x3000, 0x3000)]

/-- White space. -/
def isBlankChar (c : Char) : Bool :=
  blankRanges.any fun range => range.1 ≤ c.toNat && c.toNat ≤ range.2

/-- Nothing but white space. -/
def isBlank (s : String) : Bool := s.toList.all isBlankChar

example : isBlank "\u3000 \t\u0085" = true ∧ isBlank "\u200b" = false := by decide

end RowPolicy.Text
