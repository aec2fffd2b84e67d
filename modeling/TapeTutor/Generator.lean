import TapeTutor.Program

/-!
# Generating code

The generator writes a program that prints given bytes.  It works on one cell and treats
the bytes one after the other: it brings the cell from the last byte to the next and prints
it.  There are two ways to do that, and the shorter one is taken.

* **A difference.**  Count up or down from the last byte; with wrapping cells the short way
  round 256 is open too.
* **A fresh start.**  Clear the cell and count up from zero, or multiply: put `a` into the
  cell, add `b` to its right neighbour `a` times, correct the remainder there and move the
  neighbour back.  Every `a` up to a bound is tried, with the `b` for which `a * b` comes
  nearest.

Either way the head ends where it began, on a cell that holds the byte, with a zero to its
right.  A candidate replaces the best so far only if it is strictly shorter, so the choice is
determined.
-/

namespace TapeTutor

/-- What the generator may use. -/
structure GeneratorOptions where
  /-- Whether to consider a fresh start, and loops in it. -/
  useLoops : Bool := true
  /-- The largest loop counter to try. -/
  maxLoopFactor : UInt8 := 16
  /-- Whether a difference may go the short way round 256. -/
  wrapping : Bool := true
deriving DecidableEq, Repr

namespace GeneratorOptions

/-- Differences only, without wrapping. -/
def simple : GeneratorOptions where
  useLoops := false
  maxLoopFactor := 0
  wrapping := false

end GeneratorOptions

namespace Generator

open Instruction

/-! ## Fragments -/

/-- Adds `n` to the cell. -/
def plus (n : Nat) : List Instruction := List.replicate n increment

/-- Takes `n` from the cell. -/
def minus (n : Nat) : List Instruction := List.replicate n decrement

/-- Sets the cell to zero. -/
def clear : List Instruction := [loopOpen, decrement, loopClose]

/-- Sets the cell to zero and counts up to `target`. -/
def count (target : UInt8) : List Instruction := clear ++ plus target.toNat

/-- Sets the cell to `a * b + up - down` through its right neighbour. -/
def product (a b up down : Nat) : List Instruction :=
  clear ++ [right] ++ clear ++ [left] ++ plus a ++
    [loopOpen, right] ++ plus b ++ [left, decrement, loopClose, right] ++
    plus up ++ minus down ++
    [loopOpen, left, increment, right, decrement, loopClose, left]

/-- The factor whose product with `a` comes nearest to `target`; a half goes up, and the
factor is at least one. -/
def cofactor (target a : Nat) : Nat := max 1 ((2 * target + a) / (2 * a))

/-- The product with the factor `a` that makes `target`. -/
def productFor (target : UInt8) (a : Nat) : List Instruction :=
  let b := cofactor target.toNat a
  product a b (target.toNat - a * b) (a * b - target.toNat)

/-- The shorter of two fragments, the first if they are equally long. -/
def shorter (s t : List Instruction) : List Instruction :=
  if t.length < s.length then t else s

/-! ## From byte to byte -/

/-- Counts from `cursor` to `target`. -/
def difference (o : GeneratorOptions) (cursor target : UInt8) : List Instruction :=
  if o.wrapping then
    let forward := target - cursor
    let backward := cursor - target
    if forward ≤ backward then plus forward.toNat else minus backward.toNat
  else plus (target.toNat - cursor.toNat) ++ minus (cursor.toNat - target.toNat)

/-- Makes `target` whatever the cell holds. -/
def freshStart (o : GeneratorOptions) (target : UInt8) : List Instruction :=
  if target = 0 then count target
  else
    (List.range' 1 o.maxLoopFactor.toNat).foldl (fun best a => shorter best (productFor target a))
      (count target)

/-- Brings the cell from `cursor` to `target`. -/
def reach (o : GeneratorOptions) (cursor target : UInt8) : List Instruction :=
  if o.useLoops then shorter (difference o cursor target) (freshStart o target)
  else difference o cursor target

/-- Prints the bytes, from a cell that holds `cursor`. -/
def print (o : GeneratorOptions) (cursor : UInt8) : List UInt8 → List Instruction
  | [] => []
  | b :: rest => reach o cursor b ++ output :: print o b rest

end Generator

/-- A program that prints the given bytes on a fresh tape. -/
def generate (o : GeneratorOptions) (bytes : List UInt8) : List Instruction :=
  Generator.print o 0 bytes

end TapeTutor
