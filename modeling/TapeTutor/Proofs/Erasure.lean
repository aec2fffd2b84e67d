import TapeTutor.Proofs.Reachable

/-!
# Nothing survives a fresh start

`Interpreter.reset` and `Interpreter.execute` do not look at what is there: both begin with a new
machine.  Starting over on the tape that is there is another matter.  It means to set every cell
to zero, to rewind, and to forget the output, the count, the records and the session.  The length
of the tape is not touched by that, so erasing gives a new interpreter only if the length is still
the one of the configuration.

* `Interpreter.erased` erases in place, and `Interpreter.executeHere` runs a source on the machine
  and behind the records that are there, whatever they are.
* `Machine.erased_eq_fresh` says what is left of a machine: the length of its tape, and no more.
* No operation changes that length (`Interpreter.Sound`).  So every interpreter that can be reached
  is erased to a new one, and an execution on it is one on a new interpreter.
-/

namespace TapeTutor

/-! ## Erasing in place -/

/-- The machine with all cells zero, before its first instruction.  The tape keeps its length. -/
def Machine.erased (m : Machine) : Machine where
  tape := m.tape.map fun _ => 0
  head := 0
  ip := 0
  cursor := 0
  output := #[]
  iterations := 0

/-- Only the length of the tape is left. -/
theorem Machine.erased_eq_fresh (m : Machine) : m.erased = .fresh m.tape.size := by
  rw [erased, fresh, Array.map_const']

namespace Interpreter

variable {config : Config} {it it' : Interpreter}

/-- The interpreter with its machine erased, without records and without a session. -/
def erased (it : Interpreter) : Interpreter where
  config := it.config
  machine := it.machine.erased
  history := #[]
  session := .notStarted

/-- Runs `source` on the machine that is there, with what the ceiling leaves to it.  The records go
behind those that are there. -/
def executeHere (it : Interpreter) (source : String) : Execution × Interpreter :=
  match Program.parse source with
  | .error fault => (.error (failure it.machine fault), it)
  | .ok p =>
      let r := Machine.run p it.config.input it.config.capture
        (it.config.maxIterations - it.machine.iterations) it.machine it.history
      (conclude it.config r, { it with machine := r.machine, history := r.history })

/-- On a new interpreter it makes no difference. -/
theorem executeHere_fresh (config : Config) (source : String) :
    (fresh config).executeHere source = (fresh config).execute source := by
  unfold executeHere execute
  cases Program.parse source with
  | error fault => rfl
  | ok p => rfl

/-! ## Every reachable interpreter -/

/-- A tape that has kept its length is erased to a new one. -/
theorem Sound.erased_eq (h : Sound config it) : it.erased = fresh config := by
  rw [erased, Machine.erased_eq_fresh, h.fits.size_tape, h.config_eq]
  rfl

theorem Sound.reset_eq (h : Sound config it) : it.reset = fresh config := by
  rw [Interpreter.reset, h.config_eq]

theorem Sound.execute_eq (h : Sound config it) (source : String) :
    it.execute source = (fresh config).execute source := by
  rw [← h.reset_eq, execute_reset]

/-- **No state survives.**  Take any interpreter that can be reached, after executions, calls,
debugging and animations that have succeeded, failed, or been left in the middle.

* A reset makes a new interpreter of it, and so does erasing it in place.
* An execution has the result that it has on a new interpreter, and leaves the same interpreter:
  tape, positions, output, count, records and session.  An execution on the erased machine is no
  different.
* So an execution comes to the same on any two interpreters that can be reached with the same
  configuration, and also if it is the second one of the same source. -/
theorem reachable_forgets (h : Reachable config it) :
    new config = .ok it.reset ∧ it.erased = it.reset ∧
    (∀ source, it.execute source = (fresh config).execute source ∧
      it.erased.executeHere source = it.execute source) ∧
    (∀ it', Reachable config it' → ∀ source, it'.execute source = it.execute source) ∧
    ∀ source, (it.execute source).2.execute source = it.execute source := by
  have hsame : ∀ it', Reachable config it' → ∀ source,
      it'.execute source = (fresh config).execute source :=
    fun _ h' source => h'.sound.execute_eq source
  refine ⟨?_, ?_, ?_, ?_, ?_⟩
  · rw [h.sound.reset_eq]
    exact new_of_valid h.valid
  · rw [h.sound.erased_eq, h.sound.reset_eq]
  · intro source
    refine ⟨hsame it h source, ?_⟩
    rw [h.sound.erased_eq, executeHere_fresh, hsame it h source]
  · intro it' h' source
    rw [hsame it' h' source, hsame it h source]
  · intro source
    have hnext : Reachable config (it.execute source).2 := h.next (.execute source)
    rw [hsame _ hnext source, hsame it h source]

/-- After an execution that ran off the tape, and in the middle of an animation. -/
theorem reachable_forgets_interrupted :
    ∃ it, Reachable { memorySize := 2, maxIterations := 9, capture := true } it ∧
      it.session ≠ .notStarted ∧ it.machine.iterations = 3 ∧ it.machine.cell = 2 ∧
      it.erased = it.reset ∧
      it.execute "+." =
        (fresh { memorySize := 2, maxIterations := 9, capture := true }).execute "+." := by
  have hnew : Reachable { memorySize := 2, maxIterations := 9, capture := true }
      (fresh { memorySize := 2, maxIterations := 9, capture := true }) := .new rfl
  have h := (hnew.next (.execute "+[>+]")).next (.animate {} false "+[++]" (some 3))
  obtain ⟨_, herased, hexecute, _⟩ := reachable_forgets h
  exact ⟨_, h, by decide +kernel, by decide +kernel, by decide +kernel, herased,
    (hexecute "+.").1⟩

end Interpreter

end TapeTutor
