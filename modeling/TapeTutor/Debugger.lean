import TapeTutor.Interpreter
import TapeTutor.Text.Blank

/-!
# The debugger

The debugger steps through a program and talks to its user between the steps.  It is written
as a conversation: a `Turn` is what the debugger says and whether it now waits at the prompt
or has ended, and `Debugger.answer` is the turn that follows a line of the user.

* `Debugger.proceed` executes the next instruction and shows what it found.  The instruction
  is executed *before* the prompt, so the shown state is the one before it, while the memory
  command at that prompt shows the cells after it.
* `Debugger.skip` executes the rest without showing anything.
* `Debugger.run` has the whole conversation, for a given list of lines.  When the lines run
  out at the prompt, the user has left.

The instruction ceiling is checked before every step.  The number of steps shown goes on
from one run to the next, and so does the program, if the earlier run was left at a prompt.
-/

namespace TapeTutor

/-- An interpreter that is being debugged. -/
structure Debugger where
  interpreter : Interpreter
  /-- The source text. -/
  code : String
  /-- The number of instructions executed under the debugger. -/
  steps : Nat

/-- How a debugging run ended. -/
inductive DebugEnd where
  /-- The program is over and has written `output`. -/
  | finished (output : Array UInt8)
  /-- The user has left. -/
  | quit
  /-- The program failed or ran into the ceiling. -/
  | failed (fault : Fault)
  /-- A line of the user is not text. -/
  | unreadable
deriving DecidableEq, Repr

namespace Debugger

/-! ## Commands -/

/-- What a user can ask for at the prompt. -/
inductive Command where
  /-- Execute the next instruction. -/
  | next
  /-- Show the leading cells. -/
  | memory
  /-- Execute the rest. -/
  | skip
  /-- Leave. -/
  | quit
deriving DecidableEq, Repr

/-- The command a trimmed line stands for. -/
def Command.ofTrimmed? (word : String) : Option Command :=
  if word = "" ∨ word = "n" ∨ word = "next" then some next
  else if word = "m" ∨ word = "memory" then some memory
  else if word = "s" ∨ word = "skip" then some skip
  else if word = "q" ∨ word = "quit" then some quit
  else none

/-- The command a line stands for. -/
def Command.parse? (line : String) : Option Command := ofTrimmed? (Text.trim line)

/-- A line of the user: a text, or `none` for bytes that are not text. -/
abbrev Reply := Option String

/-- The bytes up to and including each line feed, and what follows the last one. -/
def splitReplies : List UInt8 → List (List UInt8)
  | [] => []
  | b :: rest =>
      if b = 10 then [b] :: splitReplies rest
      else
        match splitReplies rest with
        | [] => [[b]]
        | first :: others => (b :: first) :: others

/-- The lines of the user that a stream of bytes holds. -/
def repliesOf (bytes : List UInt8) : List Reply := (splitReplies bytes).map Text.decodeUtf8?

/-! ## Turns -/

/-- What the debugger says, and where it then stands. -/
structure Turn where
  /-- What is written. -/
  text : String
  /-- How the run ended; nothing while it waits at the prompt. -/
  ending : Option DebugEnd
  debugger : Debugger

/-- Starts debugging a program from a fresh start. -/
def start (it : Interpreter) (code : String) : Debugger where
  interpreter := it.reset
  code := code
  steps := 0

/-- The number of cells the memory command shows. -/
def memoryCells : Nat := 30

/-- The prompt. -/
def prompt : String := "> "

/-- The line that opens a run. -/
def greeting : String :=
  "Starting debugger... Use commands: n (next), m (memory), s (skip to end), q (quit)\n"

/-- Ends a run that failed, with what was written so far. -/
def fail (d : Debugger) (fault : Fault) : Turn where
  text :=
    "Error: " ++ fault.message ++ "\n" ++
      (if d.interpreter.machine.output.isEmpty then ""
        else "Partial output: " ++ Text.showBytes d.interpreter.machine.output ++ "\n")
  ending := some (.failed fault)
  debugger := d

/-- Ends a run whose program is over. -/
def finish (d : Debugger) (output : Array UInt8) : Turn where
  text := "Program finished\nOutput: " ++ Text.showBytes output ++ "\n"
  ending := some (.finished output)
  debugger := d

/-- The two lines that show step `n`. -/
def shownStep (n : Nat) (r : Record) : String :=
  "Step " ++ toString n ++ ": " ++ r.instruction.text ++ " at position " ++ toString r.ip ++
    "\nMemory[" ++ toString r.pointer ++ "] = " ++ toString r.value.toNat ++ "\n"

/-- Whether the interpreter has used up its instructions. -/
def spent (d : Debugger) : Bool :=
  d.interpreter.config.maxIterations ≤ d.interpreter.machine.iterations

/-- The fault of a spent interpreter. -/
def ceiling (d : Debugger) : Fault := .ceiling d.interpreter.config.maxIterations

/-- Executes one instruction. -/
def step (d : Debugger) : Outcome × Debugger :=
  match d with
  | ⟨it, code, steps⟩ =>
      match it.step code with
      | (.stepped record output, it) => (.stepped record output, ⟨it, code, steps + 1⟩)
      | (.done output, it) => (.done output, ⟨it, code, steps⟩)
      | (.failed fault, it) => (.failed fault, ⟨it, code, steps⟩)

/-- Executes the next instruction and shows what it found. -/
def proceed (d : Debugger) : Turn :=
  if d.spent then d.fail d.ceiling
  else
    let n := d.steps
    match d.step with
    | (.stepped record _, d) => ⟨shownStep n record ++ prompt, none, d⟩
    | (.done output, d) => d.finish output
    | (.failed fault, d) => d.fail fault

/-- Executes at most `fuel` instructions without showing them. -/
def skipLoop : (fuel : Nat) → Debugger → Turn
  | 0, d => d.fail d.ceiling
  | fuel + 1, d =>
      if d.spent then d.fail d.ceiling
      else
        match d.step with
        | (.stepped _ _, d) => skipLoop fuel d
        | (.done output, d) => d.finish output
        | (.failed fault, d) => d.fail fault

/-- Executes the rest of the program.  The ceiling itself is fuel enough. -/
def skip (d : Debugger) : Turn := skipLoop d.interpreter.config.maxIterations d

/-- The turn that follows a line of the user. -/
def answer (d : Debugger) : Reply → Turn
  | none => ⟨"", some .unreadable, d⟩
  | some line =>
      match Command.parse? line with
      | some .next => d.proceed
      | some .memory =>
          ⟨"Memory snapshot:\n" ++ Text.listBytes (d.interpreter.snapshot 0 memoryCells) ++
            "\n" ++ prompt, none, d⟩
      | some .skip => d.skip
      | some .quit => ⟨"Debugging stopped\n", some .quit, d⟩
      | none =>
          ⟨"Unknown command '" ++ Text.trim line ++ "'. Use n, m, s or q\n" ++ prompt, none, d⟩

/-! ## Conversations -/

/-- A run of the debugger that has ended. -/
structure Talk where
  ending : DebugEnd
  /-- Everything written. -/
  text : String
  /-- The debugger it leaves. -/
  debugger : Debugger

/-- The conversation that follows a turn; `said` is what was written before it. -/
def converse (said : String) (t : Turn) : List Reply → Talk
  | [] =>
      match t.ending with
      | some ending => ⟨ending, said ++ t.text, t.debugger⟩
      | none => ⟨.quit, said ++ t.text ++ "\n", t.debugger⟩
  | reply :: rest =>
      match t.ending with
      | some ending => ⟨ending, said ++ t.text, t.debugger⟩
      | none => converse (said ++ t.text) (t.debugger.answer reply) rest

/-- A run of the debugger on a list of lines. -/
def run (d : Debugger) (replies : List Reply) : Talk := converse greeting d.proceed replies

@[simp]
theorem converse_ended {said text : String} {ending : DebugEnd} {d : Debugger}
    (replies : List Reply) :
    converse said ⟨text, some ending, d⟩ replies = ⟨ending, said ++ text, d⟩ := by
  cases replies <;> rfl

/-- A user who has nothing left to say at the prompt has left. -/
@[simp]
theorem converse_nil {said text : String} {d : Debugger} :
    converse said ⟨text, none, d⟩ [] = ⟨.quit, said ++ text ++ "\n", d⟩ := rfl

@[simp]
theorem converse_cons {said text : String} {d : Debugger} {reply : Reply} {rest : List Reply} :
    converse said ⟨text, none, d⟩ (reply :: rest) =
      converse (said ++ text) (d.answer reply) rest := rfl

end Debugger

end TapeTutor
