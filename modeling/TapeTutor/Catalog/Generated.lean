import TapeTutor.Catalog.Basic
import TapeTutor.Text.Columns

/-!
# Generated exercises

Exercises made from a template and a few small numbers.  `Exercise.ofSeed` picks template
and numbers from a seed, so that the same seed always gives the same exercise.

The numbers come from a `SeedStream`: a 64-bit counter that moves on by a fixed odd constant,
each value of which is mixed by two rounds of shifting and multiplying and a last shift.
-/

namespace TapeTutor

/-- A stream of numbers that a seed determines. -/
structure SeedStream where
  state : UInt64
deriving DecidableEq, Repr

namespace SeedStream

/-- Mixes the bits of a word. -/
def mix (z : UInt64) : UInt64 :=
  let z := (z ^^^ (z >>> 30)) * 0xBF58476D1CE4E5B9
  let z := (z ^^^ (z >>> 27)) * 0x94D049BB133111EB
  z ^^^ (z >>> 31)

/-- The next number of the stream, reduced to a remainder modulo `n`, and the rest of it. -/
def below (s : SeedStream) (n : UInt64) : Nat × SeedStream :=
  let state := s.state + 0x9E3779B97F4A7C15
  ((mix state % n).toNat, ⟨state⟩)

/-- A remainder is smaller than what it was taken of. -/
theorem below_lt (s : SeedStream) {n : UInt64} (h : 0 < n) : (s.below n).1 < n.toNat := by
  have hn : 0 < n.toNat := h
  simpa [below] using Nat.mod_lt _ hn

end SeedStream

namespace Exercise

open Text (repeated)

/-- Set a cell to `value`. -/
def setValue (value : UInt8) : Exercise :=
  let v := toString value.toNat
  { title := "Set cell to " ++ v
    description := "Set the current cell to the value " ++ v
    setup := ""
    tests := [.leaving [value]]
    hint := "Use " ++ v ++ " plus signs"
    solution := repeated value.toNat "+" }

/-- Move `value` to the right by `distance` cells. -/
def moveValue (value : UInt8) (distance : Nat) : Exercise :=
  let v := toString value.toNat
  let d := toString distance
  { title := "Move " ++ v ++ " right " ++ d ++ " cells"
    description := "Move the value " ++ v ++ " from cell 0 to cell " ++ d
    setup := repeated value.toNat "+"
    tests := [.leaving (List.replicate distance 0 ++ [value])]
    hint := "Use a loop to move the value"
    solution := "[-" ++ repeated distance ">" ++ "+" ++ repeated distance "<" ++ "]" }

/-- Multiply `a` by `b`; the product has to fit a cell. -/
def multiply (a b : UInt8) : Exercise :=
  let product := toString a.toNat ++ " * " ++ toString b.toNat
  { title := "Multiply " ++ product
    description := "Calculate " ++ product ++ " and store in cell 1"
    setup := ""
    tests := [.leaving [0, a * b]]
    hint := "Use nested loops"
    solution := repeated a.toNat "+" ++ "[->" ++ repeated b.toNat "+" ++ "<]" }

/-- The exercise a seed stands for; there are no templates for the hard level. -/
def ofSeed (level : Level) (seed : UInt64) : Option Exercise :=
  let s : SeedStream := ⟨seed⟩
  match level with
  | .beginner =>
      let (kind, s) := s.below 2
      if kind = 0 then
        let (value, _) := s.below 20
        some (setValue (1 + value).toUInt8)
      else
        let (value, s) := s.below 10
        let (distance, _) := s.below 3
        some (moveValue (1 + value).toUInt8 (1 + distance))
  | .intermediate =>
      let (a, s) := s.below 5
      let (b, _) := s.below 5
      some (multiply (2 + a).toUInt8 (2 + b).toUInt8)
  | .advanced => none

end Exercise

end TapeTutor
