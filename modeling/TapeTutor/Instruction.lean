/-!
# The eight instructions

The language has eight one-character instructions and nothing else: two move the
head along the tape, two change the cell under it, two talk to the outside, and two
bracket a loop.  Every other character of a source text is a comment.

`Instruction.ofChar?` reads a character and `Instruction.toChar` writes one; the two
are inverse to each other (`ofChar?_toChar`, `toChar_of_ofChar?`), so a cleaned program
and its list of instructions carry the same information.
-/

namespace TapeTutor

/-- One of the eight tape instructions. -/
inductive Instruction where
  /-- `>` moves the head one cell to the right. -/
  | right
  /-- `<` moves the head one cell to the left. -/
  | left
  /-- `+` adds one to the cell, modulo 256. -/
  | increment
  /-- `-` takes one from the cell, modulo 256. -/
  | decrement
  /-- `.` writes the cell to the output. -/
  | output
  /-- `,` reads the next input byte into the cell. -/
  | input
  /-- `[` skips past its partner when the cell is zero. -/
  | loopOpen
  /-- `]` goes back behind its partner when the cell is not zero. -/
  | loopClose
deriving DecidableEq, Repr, Inhabited

namespace Instruction

/-- The instruction a source character stands for; a comment character stands for none. -/
def ofChar? : Char → Option Instruction
  | '>' => some right
  | '<' => some left
  | '+' => some increment
  | '-' => some decrement
  | '.' => some output
  | ',' => some input
  | '[' => some loopOpen
  | ']' => some loopClose
  | _ => none

/-- The character that stands for an instruction. -/
def toChar : Instruction → Char
  | right => '>'
  | left => '<'
  | increment => '+'
  | decrement => '-'
  | output => '.'
  | input => ','
  | loopOpen => '['
  | loopClose => ']'

/-- The instruction as a text of one character. -/
def text (i : Instruction) : String := String.singleton i.toChar

@[simp]
theorem ofChar?_toChar (i : Instruction) : ofChar? i.toChar = some i := by
  cases i <;> rfl

/-- A character that reads as `i` is the character of `i`. -/
theorem toChar_of_ofChar? {c : Char} {i : Instruction} (h : ofChar? c = some i) :
    i.toChar = c := by
  unfold ofChar? at h
  split at h <;> cases h <;> rfl

theorem toChar_injective : Function.Injective toChar := by
  intro i j h
  have hi := ofChar?_toChar i
  rw [h, ofChar?_toChar] at hi
  exact (Option.some.inj hi).symm

end Instruction

end TapeTutor
