/-!
# Blank characters

A character is blank when it has the `White_Space` property of the Unicode standard.  The
table below lists the property as closed ranges of code points; it includes the no-break
space, the line and paragraph separators and the ideographic space, and leaves out
zero-width characters, which are not white space.
-/

namespace TapeTutor.Text

/-- The code points with the `White_Space` property, as closed ranges in order. -/
def blankRanges : List (Nat × Nat) :=
  [(0x09, 0x0D), (0x20, 0x20), (0x85, 0x85), (0xA0, 0xA0), (0x1680, 0x1680),
    (0x2000, 0x200A), (0x2028, 0x2029), (0x202F, 0x202F), (0x205F, 0x205F),
    (0x3000, 0x3000)]

/-- Whether a code point lies in one of a list of closed ranges. -/
def inRanges (ranges : List (Nat × Nat)) (c : Char) : Bool :=
  ranges.any fun (lo, hi) => lo ≤ c.toNat && c.toNat ≤ hi

/-- Whether a character is white space. -/
def isBlank (c : Char) : Bool := inRanges blankRanges c

/-- The characters without the blanks in front. -/
def dropBlanks (cs : List Char) : List Char := cs.dropWhile isBlank

/-- The characters without the blanks behind. -/
def dropBlanksEnd (cs : List Char) : List Char := (dropBlanks cs.reverse).reverse

/-- The characters without the blanks on either side. -/
def trimChars (cs : List Char) : List Char := dropBlanksEnd (dropBlanks cs)

/-- The text without the blanks behind. -/
def trimEnd (s : String) : String := String.ofList (dropBlanksEnd s.toList)

/-- The text without the blanks on either side. -/
def trim (s : String) : String := String.ofList (trimChars s.toList)

end TapeTutor.Text
