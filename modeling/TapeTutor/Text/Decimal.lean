/-!
# Reading counts

Counts in settings and on the command line are decimal: at most one `+` in front, then at
least one digit, and a value that fits a 64-bit word.
-/

namespace TapeTutor.Text

/-- One more than the largest count. -/
def wordSize : Nat := UInt64.size

/-- The value of a decimal digit. -/
def digit? (c : Char) : Option Nat :=
  if '0' ≤ c ∧ c ≤ '9' then some (c.toNat - '0'.toNat) else none

/-- The value of a run of digits that continues a number whose digits so far have the
value `n`; any other character spoils it. -/
def readDigits (n : Nat) : List Char → Option Nat
  | [] => some n
  | c :: rest =>
      match digit? c with
      | some d => readDigits (10 * n + d) rest
      | none => none

/-- The characters of a number without one leading `+`. -/
def dropPlus : List Char → List Char
  | '+' :: rest => rest
  | cs => cs

/-- Reads a count that fits a 64-bit word. -/
def readCount? (cs : List Char) : Option Nat :=
  match dropPlus cs with
  | [] => none
  | digits => (readDigits 0 digits).filter (· < wordSize)

end TapeTutor.Text
