/-!
# Terminal colours

The fourteen named colours that settings can choose from, and true colours given by their
three channels.  A terminal selects a colour by a few numbers, its *codes*; the codes of a
background are those of the foreground moved up by ten.
-/

namespace TapeTutor

/-- A colour a terminal can show. -/
inductive Color where
  | black
  | red
  | green
  | yellow
  | blue
  | purple
  | cyan
  | white
  | darkGray
  | lightRed
  | lightGreen
  | lightBlue
  | lightPurple
  | lightCyan
  | lightGray
  | rgb (red green blue : UInt8)
deriving DecidableEq, Repr

/-- The numbers that select a colour for the foreground. -/
def Color.foreground : Color → List Nat
  | black => [30]
  | red => [31]
  | green => [32]
  | yellow => [33]
  | blue => [34]
  | purple => [35]
  | cyan => [36]
  | white => [37]
  | darkGray => [90]
  | lightRed => [91]
  | lightGreen => [92]
  | lightBlue => [94]
  | lightPurple => [95]
  | lightCyan => [96]
  | lightGray => [97]
  | rgb r g b => [38, 2, r.toNat, g.toNat, b.toNat]

/-- The numbers that select a colour for the background: the first one moves up by ten. -/
def Color.background (c : Color) : List Nat :=
  match c.foreground with
  | [] => []
  | first :: channels => (first + 10) :: channels

end TapeTutor
