import TapeTutor.Program

/-!
# The tape machine

A machine is a tape of bytes, a head on it, a position in the program, a position in the
input, the bytes written so far and the number of instructions executed.  It holds neither
the program nor the input: those stay fixed during a run and are passed to every step.

A step is made of two independent halves.

* `Machine.fault?` looks at the instruction and says why it cannot be executed, if it
  cannot.  It changes nothing, so a failed step leaves the machine as it was.
* `Machine.perform` is the effect of an instruction that can be executed.  A jump lands on
  the matching bracket, and the advance common to all instructions then moves past it.

`Machine.step` puts the two together, and `Machine.run` repeats it a bounded number of
times.  Both hand the machine back in every case, so a run owns its tape from beginning to
end.
-/

namespace TapeTutor

/-- Tape, head, positions in program and input, output and instruction count. -/
structure Machine where
  /-- The cells. -/
  tape : Array UInt8
  /-- The cell under the head. -/
  head : Nat
  /-- The position of the next instruction. -/
  ip : Nat
  /-- The number of input bytes consumed. -/
  cursor : Nat
  /-- The bytes written, in order. -/
  output : Array UInt8
  /-- The number of instructions executed. -/
  iterations : Nat
deriving DecidableEq, Repr

/-- What an instruction found: the state just before it was executed. -/
structure Record where
  /-- The instruction executed. -/
  instruction : Instruction
  /-- The cell under the head. -/
  pointer : Nat
  /-- The value of that cell. -/
  value : UInt8
  /-- The position of the instruction. -/
  ip : Nat
deriving DecidableEq, Repr

/-- What a step came to. -/
inductive Event where
  /-- The program has ended; there was nothing to execute. -/
  | halted
  /-- The next instruction cannot be executed. -/
  | faulted (fault : Fault)
  /-- The instruction of the record was executed. -/
  | executed (record : Record)
deriving DecidableEq, Repr

namespace Machine

/-- A machine on a zeroed tape of `size` cells, before its first instruction. -/
def fresh (size : Nat) : Machine where
  tape := Array.replicate size 0
  head := 0
  ip := 0
  cursor := 0
  output := #[]
  iterations := 0

/-- The value of the cell under the head. -/
def cell (m : Machine) : UInt8 := m.tape.getD m.head 0

/-- Behind the end of a row of bytes there are zeros, and more of them are not seen. -/
theorem getD_append_zeros (bytes : Array UInt8) (extra n : Nat) :
    (bytes ++ Array.replicate extra 0).getD n 0 = bytes.getD n 0 := by
  simp only [Array.getD_eq_getD_getElem?, Array.getElem?_append]
  split
  · rfl
  · next hoff =>
    rw [Array.getElem?_eq_none (Nat.le_of_not_lt hoff), Array.getElem?_replicate]
    split <;> rfl

/-- Puts a value into the cell under the head. -/
def write (m : Machine) (value : UInt8) : Machine :=
  { m with tape := m.tape.setIfInBounds m.head value }

/-- The record of executing `i` now. -/
def record (m : Machine) (i : Instruction) : Record where
  instruction := i
  pointer := m.head
  value := m.cell
  ip := m.ip

/-- A copy of `count` cells from `start` on, cut off where the tape ends. -/
def snapshot (m : Machine) (start count : Nat) : Array UInt8 :=
  m.tape.extract start (start + count)

/-! ## One step -/

/-- Why the instruction `i`, which is next, cannot be executed. -/
def fault? (p : Program) (m : Machine) (i : Instruction) : Option Fault :=
  match i with
  | .right => if m.head + 1 < m.tape.size then none else some (.overflow m.ip m.head)
  | .left => if m.head = 0 then some (.underflow m.ip) else none
  | .loopOpen =>
      if m.cell = 0 ∧ p.target? m.ip = none then some (.brokenJump m.ip) else none
  | .loopClose =>
      if m.cell ≠ 0 ∧ p.target? m.ip = none then some (.brokenJump m.ip) else none
  | _ => none

/-- The machine on the bracket that matches the one at `ip`. -/
def jump (p : Program) (m : Machine) : Machine :=
  { m with ip := (p.target? m.ip).getD m.ip }

/-- Reads the next input byte; an exhausted input reads as zero and stays where it is. -/
def read (input : Array UInt8) (m : Machine) : Machine :=
  match input[m.cursor]? with
  | some byte => { m.write byte with cursor := m.cursor + 1 }
  | none => m.write 0

/-- What the instruction `i` does, apart from the advance to the next one. -/
def effect (p : Program) (input : Array UInt8) (m : Machine) (i : Instruction) : Machine :=
  match i with
  | .right => { m with head := m.head + 1 }
  | .left => { m with head := m.head - 1 }
  | .increment => m.write (m.cell + 1)
  | .decrement => m.write (m.cell - 1)
  | .output => { m with output := m.output.push m.cell }
  | .input => m.read input
  | .loopOpen => if m.cell = 0 then m.jump p else m
  | .loopClose => if m.cell = 0 then m else m.jump p

/-- Moves on to the next instruction and counts the one executed. -/
def advance (m : Machine) : Machine :=
  { m with ip := m.ip + 1, iterations := m.iterations + 1 }

/-- Executes the instruction `i`, which has no fault. -/
def perform (p : Program) (input : Array UInt8) (m : Machine) (i : Instruction) : Machine :=
  (m.effect p input i).advance

/-- Executes the next instruction, if there is one and it has no fault. -/
def step (p : Program) (input : Array UInt8) (m : Machine) : Event × Machine :=
  match p.get? m.ip with
  | none => (.halted, m)
  | some i =>
      match m.fault? p i with
      | some fault => (.faulted fault, m)
      | none => (.executed (m.record i), m.perform p input i)

@[simp]
theorem step_of_get?_eq_none {p : Program} {m : Machine} (input : Array UInt8)
    (h : p.get? m.ip = none) : m.step p input = (.halted, m) := by
  simp [step, h]

/-- A fault leaves the machine as it was. -/
theorem step_of_fault? {p : Program} {m : Machine} {i : Instruction} {f : Fault}
    (input : Array UInt8) (hi : p.get? m.ip = some i) (hf : m.fault? p i = some f) :
    m.step p input = (.faulted f, m) := by
  simp [step, hi, hf]

theorem step_of_perform {p : Program} {m : Machine} {i : Instruction} (input : Array UInt8)
    (hi : p.get? m.ip = some i) (hf : m.fault? p i = none) :
    m.step p input = (.executed (m.record i), m.perform p input i) := by
  simp [step, hi, hf]

@[simp]
theorem iterations_read (input : Array UInt8) (m : Machine) :
    (m.read input).iterations = m.iterations := by
  unfold read
  split <;> rfl

@[simp]
theorem iterations_effect (p : Program) (input : Array UInt8) (m : Machine) (i : Instruction) :
    (m.effect p input i).iterations = m.iterations := by
  cases i with
  | loopOpen => simp only [effect]; split <;> rfl
  | loopClose => simp only [effect]; split <;> rfl
  | input => exact iterations_read input m
  | _ => rfl

/-- An executed instruction is counted once. -/
@[simp]
theorem iterations_perform (p : Program) (input : Array UInt8) (m : Machine) (i : Instruction) :
    (m.perform p input i).iterations = m.iterations + 1 := by
  simp [perform, advance]

@[simp]
theorem size_tape_write (m : Machine) (v : UInt8) : (m.write v).tape.size = m.tape.size := by
  simp [write]

@[simp]
theorem size_tape_read (input : Array UInt8) (m : Machine) :
    (m.read input).tape.size = m.tape.size := by
  unfold read
  split <;> simp

@[simp]
theorem size_tape_effect (p : Program) (input : Array UInt8) (m : Machine) (i : Instruction) :
    (m.effect p input i).tape.size = m.tape.size := by
  cases i with
  | loopOpen => simp only [effect]; split <;> rfl
  | loopClose => simp only [effect]; split <;> rfl
  | input => exact size_tape_read input m
  | increment => exact size_tape_write m _
  | decrement => exact size_tape_write m _
  | _ => rfl

/-- No instruction changes the length of the tape. -/
@[simp]
theorem size_tape_perform (p : Program) (input : Array UInt8) (m : Machine) (i : Instruction) :
    (m.perform p input i).tape.size = m.tape.size :=
  size_tape_effect p input m i

@[simp]
theorem size_tape_step (p : Program) (input : Array UInt8) (m : Machine) :
    (m.step p input).2.tape.size = m.tape.size := by
  unfold step
  split
  · rfl
  · split
    · rfl
    · exact size_tape_perform p input m _

/-! ## Runs -/

/-- How a bounded run ended. -/
inductive Ending where
  /-- The program ended. -/
  | finished
  /-- An instruction could not be executed. -/
  | faulted (fault : Fault)
  /-- The allowance was used up with instructions left. -/
  | exhausted
deriving DecidableEq, Repr

/-- A bounded run: how it ended, the machine it left and the records it kept. -/
structure Run where
  ending : Ending
  machine : Machine
  history : Array Record
deriving Repr

/-- Steps until the program ends, a fault stops it or `allowance` instructions have been
executed; a program that ends on its last allowed instruction has ended.

The records go behind `history` when `capture` is set. -/
def run (p : Program) (input : Array UInt8) (capture : Bool) :
    (allowance : Nat) → Machine → (history : Array Record) → Run
  | 0, m, history =>
      if p.size ≤ m.ip then ⟨.finished, m, history⟩ else ⟨.exhausted, m, history⟩
  | allowance + 1, m, history =>
      match m.step p input with
      | (.halted, m) => ⟨.finished, m, history⟩
      | (.faulted fault, m) => ⟨.faulted fault, m, history⟩
      | (.executed record, m) =>
          run p input capture allowance m (if capture then history.push record else history)

/-- No run changes the length of the tape. -/
theorem size_tape_run (p : Program) (input : Array UInt8) (capture : Bool) (allowance : Nat)
    (m : Machine) (history : Array Record) :
    (run p input capture allowance m history).machine.tape.size = m.tape.size := by
  induction allowance generalizing m history with
  | zero =>
    unfold run
    split <;> rfl
  | succ allowance ih =>
    have h := size_tape_step p input m
    unfold run
    split
    · next e => rw [e] at h; exact h
    · next e => rw [e] at h; exact h
    · next e => rw [e] at h; rw [ih]; exact h

end Machine

end TapeTutor
