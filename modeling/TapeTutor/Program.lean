import TapeTutor.Instruction
import TapeTutor.Fault

/-!
# Programs and their jumps

A source text becomes a program in two moves.  First the comments go: `clean` keeps the
instruction characters and drops all others, and from then on every position is an index
into what is left.  Then one pass over the instructions pairs the brackets.

The pass keeps the openers that still wait for a partner on a stack (`Scan.pending`) and
fills a table of jump targets.  Two things can go wrong, and they are told apart by *when*
they show:

* a `]` with nothing on the stack is reported at once, at its own position;
* an opener left on the stack is reported at the end, and it is the earliest one, which
  lies at the bottom.

No half-filled table ever leaves `Program.parse`.
-/

namespace TapeTutor

/-! ## Comments -/

/-- The instructions of a source text, in order. -/
def clean (source : String) : List Instruction :=
  source.toList.filterMap Instruction.ofChar?

/-- The instructions written out again, one character each. -/
def spell (code : List Instruction) : String :=
  String.ofList (code.map Instruction.toChar)

/-- The source text without its comments. -/
def strip (source : String) : String :=
  spell (clean source)

/-- Spelling a list of instructions and reading it back gives the same list. -/
@[simp]
theorem clean_spell (code : List Instruction) : clean (spell code) = code := by
  have hread : Instruction.ofChar? ∘ Instruction.toChar = some := funext Instruction.ofChar?_toChar
  rw [clean, spell, String.toList_ofList, List.filterMap_map, hread, List.filterMap_some]

/-- A stripped text has no comments left to strip. -/
@[simp]
theorem strip_strip (source : String) : strip (strip source) = strip source := by
  simp [strip]

/-! ## Programs -/

/-- A cleaned program together with its jumps.

`targets` has one entry for each instruction: the index of the partner for a bracket,
nothing for any other instruction. -/
structure Program where
  /-- The instructions, in order. -/
  code : Array Instruction
  /-- For each position, the position of the matching bracket. -/
  targets : Array (Option Nat)
deriving DecidableEq, Repr

namespace Program

/-- The number of instructions. -/
def size (p : Program) : Nat := p.code.size

/-- The instruction at a position, if the position lies inside the program. -/
def get? (p : Program) (ip : Nat) : Option Instruction := p.code[ip]?

/-- The partner of the bracket at a position. -/
def target? (p : Program) (ip : Nat) : Option Nat := (p.targets[ip]?).join

/-- The program as text. -/
def text (p : Program) : String := spell p.code.toList

/-- Every loop as the positions of its two brackets, in the order of the openers. -/
def loops (p : Program) : List (Nat × Nat) :=
  p.targets.toList.zipIdx.filterMap fun (target, i) =>
    match target with
    | some j => if i < j then some (i, j) else none
    | none => none

/-! ## Pairing the brackets -/

/-- The state of the pass that pairs the brackets. -/
structure Scan where
  /-- The openers that wait for a partner, the latest first. -/
  pending : List Nat
  /-- The targets found so far. -/
  targets : Array (Option Nat)

/-- One step of the pass, for the instruction `i` that stands at `position`. -/
def Scan.visit (s : Scan) (i : Instruction) (position : Nat) : Except Fault Scan :=
  match i with
  | .loopOpen => .ok { s with pending := position :: s.pending }
  | .loopClose =>
      match s.pending with
      | [] => .error (.unmatched .closing position)
      | opener :: rest =>
          .ok
            { pending := rest
              targets :=
                (s.targets.setIfInBounds opener (some position)).setIfInBounds position
                  (some opener) }
  | _ => .ok s

/-- The pass over the rest of a program, whose first instruction stands at `position`. -/
def Scan.run (s : Scan) (position : Nat) : List Instruction → Except Fault Scan
  | [] => .ok s
  | i :: rest =>
      match s.visit i position with
      | .error fault => .error fault
      | .ok s' => s'.run (position + 1) rest

/-- The state before the first instruction of a program of `size` instructions. -/
def Scan.start (size : Nat) : Scan where
  pending := []
  targets := Array.replicate size none

/-- Pairs the brackets of a list of instructions. -/
def ofInstructions (code : List Instruction) : Except Fault Program :=
  match (Scan.start code.length).run 0 code with
  | .error fault => .error fault
  | .ok s =>
      match s.pending.getLast? with
      | some opener => .error (.unmatched .opening opener)
      | none => .ok { code := code.toArray, targets := s.targets }

/-- Reads a source text: drops the comments and pairs the brackets.

Fails at the first `]` without an opener, or else at the earliest `[` left open. -/
def parse (source : String) : Except Fault Program :=
  ofInstructions (clean source)

/-- A parsed program consists of the instructions it was built from. -/
theorem code_of_ofInstructions {code : List Instruction} {p : Program}
    (h : ofInstructions code = .ok p) : p.code = code.toArray := by
  unfold ofInstructions at h
  split at h
  · contradiction
  · split at h
    · contradiction
    · cases h
      rfl

/-- The text of a parsed program is its source without the comments. -/
theorem text_of_parse {source : String} {p : Program} (h : parse source = .ok p) :
    p.text = strip source := by
  simp [text, strip, code_of_ofInstructions h]

/-- Comments do not matter: reading a text and reading its stripped form agree. -/
@[simp]
theorem parse_strip (source : String) : parse (strip source) = parse source := by
  simp [parse, strip]

end Program

end TapeTutor
