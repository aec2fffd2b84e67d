import TapeTutor.Generator
import TapeTutor.Grading

/-!
# The journal

Runs can be followed in a journal: when a program was read, every instruction executed, how
the run ended.  The journal is kept apart from what it is about.  Nothing in the interpreter
writes to it; the notes of a run are worked out afterwards from the run's configuration and
source, which determine all of it.

A step's note names the state *after* the instruction.  That is the state before the next
one, so the notes of a history are read off its records and the machine at the end.

Only notes that are severe enough for the threshold are kept, and the notes of single
instructions are not even worked out when they would be dropped.
-/

namespace TapeTutor

/-- How important a note is. -/
inductive Severity where
  | error
  | warn
  | info
  | debug
  | trace
deriving DecidableEq, Repr

namespace Severity

/-- The rank of a severity; the lower, the more important. -/
def rank : Severity → Nat
  | error => 1
  | warn => 2
  | info => 3
  | debug => 4
  | trace => 5

/-- The label of a severity, five characters wide. -/
def label : Severity → String
  | error => "ERROR"
  | warn => "WARN "
  | info => "INFO "
  | debug => "DEBUG"
  | trace => "TRACE"

end Severity

/-- The least important severity that is kept; nothing keeps no notes at all. -/
abbrev Threshold := Option Severity

namespace Threshold

/-- Whether notes of a severity are kept. -/
def admits (t : Threshold) (s : Severity) : Bool :=
  match t with
  | some least => s.rank ≤ least.rank
  | none => false

/-- The thresholds by name. -/
def names : List (String × Threshold) :=
  [("off", none), ("error", some .error), ("warn", some .warn), ("info", some .info),
    ("debug", some .debug), ("trace", some .trace)]

/-- The threshold of that name, in any case; an unknown name keeps nothing. -/
def ofName (name : String) : Threshold :=
  (names.lookup (String.ofList (name.toList.map Char.toLower))).getD none

end Threshold

/-- A note of the journal. -/
structure Note where
  severity : Severity
  /-- The part of the program the note comes from. -/
  origin : String
  message : String
deriving DecidableEq, Repr

/-- A note as a line. -/
def Note.line (n : Note) : String :=
  "[" ++ n.severity.label ++ " " ++ n.origin ++ "] " ++ n.message ++ "\n"

namespace Journal

/-! ## Runs -/

/-- The note of a program that was read. -/
def programRead (p : Program) : Note where
  severity := .debug
  origin := "bf::program"
  message :=
    "preprocessed " ++ toString p.size ++ " instructions, " ++ toString p.loops.length ++
      " loop(s)"

/-- The notes of reading a source text; a text that does not parse leaves none. -/
def reading (source : String) : List Note :=
  match Program.parse source with
  | .ok p => [programRead p]
  | .error _ => []

/-- The note of an executed instruction, after which the head stood on `pointer` and its cell
held `value`. -/
def executed (r : Record) (after : Nat × UInt8) : Note where
  severity := .trace
  origin := "bf::interpreter"
  message :=
    "ip=" ++ toString r.ip ++ " instr=" ++ r.instruction.text ++ " ptr=" ++ toString after.1 ++
      " cell=" ++ toString after.2.toNat

/-- The notes of a history that left the machine `last`. -/
def instructions (history : List Record) (last : Machine) : List Note :=
  List.zipWith executed history
    ((history.drop 1).map (fun r => (r.pointer, r.value)) ++ [(last.head, last.cell)])

/-- The notes of the first `count` instructions of a source text. -/
def firstInstructions (t : Threshold) (config : Config) (source : String) (count : Nat) :
    List Note :=
  if t.admits .trace then
    match Program.parse source with
    | .ok p =>
        let r := Machine.run p config.input true count (.fresh config.memorySize) #[]
        instructions r.history.toList r.machine
    | .error _ => []
  else []

/-- The note of how a run ended. -/
def ended : Execution → Note
  | .ok done =>
      { severity := .debug
        origin := "bf::interpreter"
        message :=
          "program finished after " ++ toString done.iterations ++ " instruction(s), " ++
            toString done.output.size ++ " character(s) of output" }
  | .error failure =>
      { severity := .warn
        origin := "bf::interpreter"
        message := "execution failed: " ++ failure.fault.message }

/-- The notes of running a source text to its end. -/
def execution (t : Threshold) (config : Config) (source : String) : List Note :=
  if t.isNone then []
  else
    let result := ((Interpreter.fresh { config with capture := false }).execute source).1
    let count := match result with
      | .ok done => done.iterations
      | .error failure => failure.iterations
    reading source ++ firstInstructions t config source count ++ [ended result]

/-- The notes of stepping through a source text for `count` instructions.

A fault of the next instruction is noted; neither the ceiling nor a source that does not parse
is. -/
def stepping (t : Threshold) (config : Config) (source : String) (count : Nat)
    (fault? : Option Fault) : List Note :=
  if t.isNone then []
  else
    let failed := match fault? with
      | some fault =>
          if fault.category = .bounds ∨ fault.category = .inner then
            [{ severity := .warn
               origin := "bf::interpreter"
               message := "step failed: " ++ fault.message : Note }]
          else []
      | none => []
    reading source ++ firstInstructions t config source count ++ failed

/-! ## Grading and generating -/

/-- The note of the first failing case. -/
def caseFailed (i : Nat) (fault : GradeFault) : Note where
  severity := .debug
  origin := "bf::grader"
  message := "test case " ++ toString i ++ " failed: " ++ fault.message

/-- The notes of grading; every case is run, also behind one that fails. -/
def grading (t : Threshold) (code : String) (tests : List TestCase) (config : Config) :
    List Note :=
  if t.isNone ∨ config.fault?.isSome then []
  else
    let runs := tests.flatMap fun test => execution t { config with input := test.input } code
    let failed := tests.zipIdx.findSome? fun (test, i) =>
      (test.fault? code config).map (caseFailed i)
    runs ++ failed.toList

/-- The notes of comparing two programs. -/
def comparison (t : Threshold) (attempt reference : String) (config : Config) : List Note :=
  execution t config (strip attempt) ++ execution t config (strip reference)

/-- The note of a generated program. -/
def generated (code : List Instruction) (bytes : List UInt8) : Note where
  severity := .debug
  origin := "bf::generator"
  message :=
    "generated " ++ toString code.length ++ " instruction(s) for " ++ toString bytes.length ++
      " byte(s)"

end Journal

end TapeTutor
