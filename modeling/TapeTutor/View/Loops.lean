import TapeTutor.Program
import TapeTutor.Text.Columns
import TapeTutor.View.Basic

/-!
# The loops of a program

Every loop with its place, a preview of its text and a guess whether it comes to an end.  A
loop is listed before the loops around it, since it closes first, and is indented once for
each of them.

The loops come in the order of their openers.  Each is put behind those that came before it,
with the number of those that are around it; the list is sorted by closers when all are in.

The guess comes from one pass over the code of the loop: a loop that brings the head back and
counts something down probably ends, one that moves the head cannot be told, and one that
does neither probably runs for ever.
-/

namespace TapeTutor

/-- The instructions of a loop, brackets included. -/
def Program.loopCode (p : Program) (loop : Nat × Nat) : List Instruction :=
  (p.code.extract loop.1 (loop.2 + 1)).toList

/-- A loop of the report. -/
structure ListedLoop where
  /-- The positions of its brackets. -/
  brackets : Nat × Nat
  /-- The number of loops around it. -/
  depth : Nat
deriving DecidableEq, Repr

/-- Puts a loop behind those listed so far, and counts those of them that are strictly around
it. -/
def listLoop (listed : List ListedLoop) (loop : Nat × Nat) : List ListedLoop :=
  listed ++ [⟨loop, listed.countP fun outer =>
    outer.brackets.1 < loop.1 && loop.2 < outer.brackets.2⟩]

/-- The loops of a program with their depths, in the order of their openers. -/
def Program.listedLoops (p : Program) : List ListedLoop := p.loops.foldl listLoop []

/-- The loops of a program with their depths, those that close first in front. -/
def Program.loopsByClose (p : Program) : List ListedLoop :=
  p.listedLoops.mergeSort fun a b => a.brackets.2 ≤ b.brackets.2

/-- What is counted in the code of a loop. -/
structure LoopCount where
  /-- How far the head is moved, to the right if positive. -/
  shift : Int := 0
  /-- How often a cell is counted down. -/
  decrements : Nat := 0
deriving DecidableEq, Repr

/-- The count behind one more instruction. -/
def LoopCount.add (n : LoopCount) : Instruction → LoopCount
  | .right => { n with shift := n.shift + 1 }
  | .left => { n with shift := n.shift - 1 }
  | .decrement => { n with decrements := n.decrements + 1 }
  | _ => n

/-- The count over a piece of code. -/
def LoopCount.of (code : List Instruction) : LoopCount := code.foldl add {}

/-- Whether a loop probably ends. -/
inductive LoopGuess where
  /-- The head comes back and a cell is counted down. -/
  | balanced
  /-- The head moves on by so many cells. -/
  | drifting (shift : Int)
  /-- The head comes back and no cell is counted down. -/
  | endless
deriving DecidableEq, Repr

/-- The guess for the instructions of a loop. -/
def LoopGuess.of (code : List Instruction) : LoopGuess :=
  let n := LoopCount.of code
  if n.shift = 0 ∧ 0 < n.decrements then .balanced
  else if n.shift ≠ 0 then .drifting n.shift
  else .endless

namespace Viewer

/-- A number with its sign. -/
def signed (n : Int) : String := (if 0 ≤ n then "+" else "-") ++ toString n.natAbs

/-- A text of more than forty characters cut to thirty-seven and dots. -/
def preview (text : String) : String :=
  if 40 < text.length then String.ofList (text.toList.take 37) ++ "..." else text

/-- A guess in words. -/
def guessLine (v : Viewer) : LoopGuess → Line
  | .balanced => [.styled (.colored v.palette.success) "Balanced loop (likely terminates)"]
  | .drifting shift =>
      [.styled (.colored v.palette.ascii) "Pointer moves", .plain (" (" ++ signed shift ++ ")")]
  | .endless => [.styled (.colored v.palette.error) "Potential infinite loop"]

/-- The three lines of the loop listed as number `n`. -/
def loopLines (v : Viewer) (p : Program) (loop : ListedLoop) (n : Nat) : List Line :=
  let indent := Text.repeated loop.depth "  "
  let code := p.loopCode loop.brackets
  [Line.plain (indent ++ "Loop " ++ toString n ++ ": [" ++ toString loop.brackets.1 ++ "-" ++
      toString loop.brackets.2 ++ "]"),
    Line.plain (indent ++ "  " ++ preview (spell code)),
    .plain (indent ++ "  ") :: v.guessLine (.of code)]

/-- The lines of the loop report. -/
def loopReport (v : Viewer) (p : Program) : List Line :=
  Theme.headingLine "Loop Structure:" ::
    match p.loopsByClose with
    | [] => [Line.plain "No loops found"]
    | loops => (loops.zipIdx 1).flatMap fun (loop, n) => v.loopLines p loop n

/-- Every loop with its place, preview and guess. -/
def loops (v : Viewer) (p : Program) : String := v.display (v.loopReport p)

end Viewer

end TapeTutor
