/-!
# Slices of a text

Positions count characters, but a text is cut by the numbers of its bytes.  `byteOffset` goes
from the one to the other.  `slice?` cuts, and it cuts only between characters: there is no
slice that begins or ends inside of one.
-/

namespace TapeTutor.Text

/-- The bytes at which the given characters begin, if the first of them begins at `offset`. -/
def charStarts (offset : Nat) : List Char → List Nat
  | [] => []
  | c :: rest => offset :: charStarts (offset + c.utf8Size) rest

/-- The byte at which character number `k` begins; the end of the text if there is no such
character. -/
def byteOffset (text : String) (k : Nat) : Nat :=
  (charStarts 0 text.toList)[k]?.getD text.utf8ByteSize

/-- The text from one byte to another; nothing if one of them is not the beginning of a
character or the end of the text, or if they are in the wrong order. -/
def slice? (text : String) (start stop : Nat) : Option String :=
  let first : String.Pos.Raw := ⟨start⟩
  let last : String.Pos.Raw := ⟨stop⟩
  if start ≤ stop ∧ first.isValid text ∧ last.isValid text then some (first.extract text last)
  else none

end TapeTutor.Text
