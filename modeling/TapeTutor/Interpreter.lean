import TapeTutor.Config
import TapeTutor.Machine

/-!
# The interpreter

An interpreter is a machine with a configuration and a memory of what it is doing.  It can
be driven in two ways.

* `Interpreter.execute` starts afresh, reads a source text and runs it to its end, to a
  fault or to the instruction ceiling.
* `Interpreter.step` executes one instruction a call.  The first call starts afresh and
  reads the source; later calls go on with that program, whatever source they are given,
  until it has ended or failed.  There is no ceiling here: the caller decides when to stop.

The two share one machine and one step, and a finished `execute` leaves no step session
behind.
-/

namespace TapeTutor

/-- The number of leading cells kept when a run is captured. -/
def capturedCells : Nat := 100

/-- A run that came to its end. -/
structure Completion where
  /-- The bytes written. -/
  output : Array UInt8
  /-- The number of instructions executed. -/
  iterations : Nat
  /-- The leading cells at the end; only of a captured run. -/
  finalMemory : Option (Array UInt8)
  /-- Every instruction in order; only of a captured run. -/
  history : Option (Array Record)
deriving DecidableEq, Repr

/-- A run that failed, with everything it produced before. -/
structure Failure where
  /-- The cause. -/
  fault : Fault
  /-- The bytes written before the fault. -/
  output : Array UInt8
  /-- The number of instructions executed before the fault. -/
  iterations : Nat
deriving DecidableEq, Repr

/-- The result of running a program. -/
abbrev Execution := Except Failure Completion

/-- What one step call came to. -/
inductive Outcome where
  /-- An instruction was executed; `output` had been written before it. -/
  | stepped (record : Record) (output : Array UInt8)
  /-- The program is over and has written `output`. -/
  | done (output : Array UInt8)
  /-- The source does not parse, or an instruction could not be executed. -/
  | failed (fault : Fault)
deriving DecidableEq, Repr

/-- Where a step session stands. -/
inductive Session where
  /-- No source has been read. -/
  | notStarted
  /-- The program is being stepped through. -/
  | running (program : Program)
  /-- The program has ended or failed. -/
  | over
deriving DecidableEq, Repr

/-- A machine with its configuration, the records of its last captured run and its step
session. -/
structure Interpreter where
  config : Config
  machine : Machine
  history : Array Record
  session : Session
deriving Repr

namespace Interpreter

/-- An interpreter with a zeroed tape, before it has done anything. -/
def fresh (config : Config) : Interpreter where
  config := config
  machine := .fresh config.memorySize
  history := #[]
  session := .notStarted

/-- An interpreter for a configuration, if that can be used. -/
def new (config : Config) : Except ConfigFault Interpreter :=
  match config.fault? with
  | some fault => .error fault
  | none => .ok (fresh config)

/-- Zeroes the tape, rewinds everything and forgets any step session. -/
def reset (it : Interpreter) : Interpreter := fresh it.config

/-- The program of the running step session, if there is one. -/
def program? (it : Interpreter) : Option Program :=
  match it.session with
  | .running p => some p
  | _ => none

/-- A copy of `count` cells from `start` on, cut off where the tape ends. -/
def snapshot (it : Interpreter) (start count : Nat) : Array UInt8 :=
  it.machine.snapshot start count

/-! ## Running to the end -/

/-- The failure that a fault makes of a machine. -/
def failure (m : Machine) (fault : Fault) : Failure where
  fault := fault
  output := m.output
  iterations := m.iterations

/-- The completion of a finished run. -/
def completion (config : Config) (r : Machine.Run) : Completion where
  output := r.machine.output
  iterations := r.machine.iterations
  finalMemory := if config.capture then some (r.machine.snapshot 0 capturedCells) else none
  history := if config.capture then some r.history else none

/-- The result a bounded run stands for. -/
def conclude (config : Config) (r : Machine.Run) : Execution :=
  match r.ending with
  | .finished => .ok (completion config r)
  | .faulted fault => .error (failure r.machine fault)
  | .exhausted => .error (failure r.machine (.ceiling config.maxIterations))

/-- Runs `source` from a fresh start.

On failure the machine stays as the failing instruction found it. -/
def execute (it : Interpreter) (source : String) : Execution × Interpreter :=
  let start := fresh it.config
  match Program.parse source with
  | .error fault => (.error (failure start.machine fault), start)
  | .ok p =>
      let config := it.config
      let r := Machine.run p config.input config.capture config.maxIterations
        (.fresh config.memorySize) #[]
      (conclude config r,
        { config, machine := r.machine, history := r.history, session := .notStarted })

/-! ## One instruction at a time -/

/-- Executes one instruction of the running program `p`. -/
def stepRunning (it : Interpreter) (p : Program) : Outcome × Interpreter :=
  match it with
  | ⟨config, machine, history, session⟩ =>
      let written := machine.output
      match machine.step p config.input with
      | (.executed record, m) => (.stepped record written, ⟨config, m, history, session⟩)
      | (.halted, m) => (.done m.output, ⟨config, m, history, .over⟩)
      | (.faulted fault, m) => (.failed fault, ⟨config, m, history, .over⟩)

/-- Executes one instruction, of `source` if no step session is on. -/
def step (it : Interpreter) (source : String) : Outcome × Interpreter :=
  match it.session with
  | .notStarted =>
      match Program.parse source with
      | .error fault => (.failed fault, it.reset)
      | .ok p => stepRunning { it.reset with session := .running p } p
  | .running p => stepRunning it p
  | .over => (.done it.machine.output, it)

/-- Starting again and running is running: `execute` looks at nothing but the configuration. -/
@[simp]
theorem execute_reset (it : Interpreter) (source : String) :
    it.reset.execute source = it.execute source := rfl

@[simp]
theorem config_reset (it : Interpreter) : it.reset.config = it.config := rfl

@[simp]
theorem reset_reset (it : Interpreter) : it.reset.reset = it.reset := rfl

end Interpreter

end TapeTutor
