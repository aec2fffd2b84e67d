import TapeTutor.Interpreter
import TapeTutor.Text.Quoted

/-!
# Grading

Two ways to judge a program, both by what it does and never by how it is written.

* `grade` runs it once for each of a list of test cases and reports the first case, in
  order, that it fails.  Within a case a failed run comes before a wrong output, and a wrong
  output before wrong cells.
* `Verdict.judge` runs it beside a reference program on the same input.  The two match when both
  come to their end with the same output and the same leading cells.

Every run has an interpreter of its own, so no case can influence another.
-/

namespace TapeTutor

/-- One input and what is expected for it. -/
structure TestCase where
  /-- The bytes given to the program. -/
  input : Array UInt8 := #[]
  /-- The output expected, if it matters. -/
  output : Option String := none
  /-- The leading cells expected, if they matter; only that many are looked at. -/
  memory : Option (Array UInt8) := none
deriving DecidableEq, Repr

/-- Why a program is not accepted. -/
inductive GradeFault where
  /-- The run failed. -/
  | execution (failure : Failure)
  /-- The output is another one. -/
  | output (expected actual : String)
  /-- The leading cells hold something else. -/
  | memory (expected actual : Array UInt8)
  /-- The configuration cannot be used. -/
  | config (fault : ConfigFault)
deriving DecidableEq, Repr

/-- The wording of a rejection. -/
def GradeFault.message : GradeFault → String
  | execution failure => "Execution error: " ++ failure.fault.message
  | output expected actual =>
      "Output mismatch. Expected: " ++ Text.quoted expected ++ ", Got: " ++ Text.quoted actual
  | memory expected actual =>
      "Memory mismatch. Expected: " ++ Text.listBytes expected ++ ", Got: " ++
        Text.listBytes actual
  | config fault => fault.message

namespace TestCase

/-- A case that expects an output. -/
def printing (input : List UInt8) (output : String) : TestCase where
  input := input.toArray
  output := some output

/-- A case without input that expects leading cells. -/
def leaving (memory : List UInt8) : TestCase where
  memory := some memory.toArray

/-- What is wrong with the output of a run. -/
def outputFault? (t : TestCase) (done : Completion) : Option GradeFault :=
  match t.output with
  | none => none
  | some expected =>
      let actual := Text.showBytes done.output
      if actual = expected then none else some (.output expected actual)

/-- What is wrong with the cells a run has left. -/
def memoryFault? (t : TestCase) (it : Interpreter) : Option GradeFault :=
  match t.memory with
  | none => none
  | some expected =>
      let actual := it.snapshot 0 expected.size
      if actual = expected then none else some (.memory expected actual)

/-- Why `code` fails this case, if it does. -/
def fault? (code : String) (config : Config) (t : TestCase) : Option GradeFault :=
  match (Interpreter.fresh { config with input := t.input }).execute code with
  | (.error failure, _) => some (.execution failure)
  | (.ok done, it) => (t.outputFault? done).or (t.memoryFault? it)

end TestCase

/-- Why `code` is not accepted, if it is not: the first failing case decides. -/
def grade (code : String) (tests : List TestCase) (config : Config) : Option GradeFault :=
  match config.fault? with
  | some fault => some (.config fault)
  | none => tests.findSome? (TestCase.fault? code config)

/-! ## Comparing two programs -/

/-- The number of leading cells that are compared. -/
def comparedCells : Nat := 10

/-- What one of two compared programs did. -/
structure Trial where
  result : Execution
  /-- The leading cells it left. -/
  memory : Array UInt8

/-- Runs a program and looks at its leading cells. -/
def Trial.run (code : String) (config : Config) : Trial :=
  match (Interpreter.fresh config).execute (strip code) with
  | (result, it) => { result, memory := it.snapshot 0 comparedCells }

/-- Two programs side by side. -/
structure Verdict where
  attempt : Trial
  reference : Trial

/-- Whether both programs came to their end with the same output and the same leading
cells. -/
def Verdict.isMatch (v : Verdict) : Bool :=
  match v.attempt.result, v.reference.result with
  | .ok a, .ok r => a.output = r.output ∧ v.attempt.memory = v.reference.memory
  | _, _ => false

/-- Runs an attempt and a reference under the same configuration. -/
def Verdict.judge (attempt reference : String) (config : Config) : Except ConfigFault Verdict :=
  match config.fault? with
  | some fault => .error fault
  | none => .ok { attempt := .run attempt config, reference := .run reference config }

end TapeTutor
