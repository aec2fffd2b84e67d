import TapeTutor.Proofs.Path

/-!
# The input is a stream of bytes and then of zeros

An input is finite, but a program can read from it as often as it likes: behind the last byte it reads
zeros.  So an input stands for the endless stream of its bytes followed by zeros (`Machine.stream`),
and the `n`-th instruction that reads gets the `n`-th byte of that stream.

What a machine remembers of its reading is how many bytes it has consumed, and it stops counting at
the end of the input.  After `n` reads the position is `n` or the length of the input, whichever is
less (`Machine.consumed`).  So two machines on different inputs do not have the same position, even
if they have read the same bytes.  But nothing else depends on it: a step on one input is the same
step on the other, as long as the streams agree where it reads (`step_consumed`), and the two go
together for a whole run (`Path.consumed`).

A run can therefore not tell two inputs apart that agree on as many bytes of their streams as it
reads.
-/

namespace TapeTutor

namespace Machine

variable {p : Program} {xs ys : Array UInt8} {m m' : Machine} {r : Record} {rs : List Record}
  {n : Nat}

/-- The input as an endless stream: its bytes, and zeros behind them. -/
def stream (input : Array UInt8) (n : Nat) : UInt8 := input.getD n 0

/-- The machine after `count` reads from the input. -/
def consumed (input : Array UInt8) (count : Nat) (m : Machine) : Machine :=
  { m with cursor := min count input.size }

/-- The number of instructions that read, among those of the records. -/
def reads (rs : List Record) : Nat := rs.countP fun r => r.instruction = .input

theorem reads_cons (r : Record) (rs : List Record) : reads (r :: rs) = reads [r] + reads rs := by
  rw [reads, reads, reads, ← List.countP_append, List.singleton_append]

/-! ## One step -/

/-- **The `n`-th read gets the `n`-th byte of the stream.** -/
theorem read_consumed (xs : Array UInt8) (n : Nat) (m : Machine) :
    (m.consumed xs n).read xs = (m.write (stream xs n)).consumed xs (n + 1) := by
  by_cases hlt : n < xs.size
  · have hcursor : (m.consumed xs n).cursor = n := Nat.min_eq_left (Nat.le_of_lt hlt)
    have hbyte : stream xs n = xs[n] := by
      rw [stream, Array.getD_eq_getD_getElem?, Array.getElem?_eq_getElem hlt, Option.getD_some]
    simp only [read, hcursor, Array.getElem?_eq_getElem hlt, hbyte]
    simp only [consumed, write, Nat.min_eq_left (Nat.succ_le_of_lt hlt)]
  · have hend := Nat.le_of_not_lt hlt
    have hcursor : (m.consumed xs n).cursor = xs.size := Nat.min_eq_right hend
    have hbyte : stream xs n = 0 := by
      rw [stream, Array.getD_eq_getD_getElem?, Array.getElem?_eq_none hend, Option.getD_none]
    simp only [read, hcursor, Array.getElem?_eq_none (Nat.le_refl _), hbyte]
    simp only [consumed, write, Nat.min_eq_right hend, Nat.min_eq_right (Nat.le_succ_of_le hend)]

/-- The position in the input is nothing that an instruction can fail for. -/
theorem fault?_consumed (i : Instruction) : (m.consumed ys n).fault? p i = m.fault? p i := by
  cases i <;> rfl

/-- An instruction that does not read leaves the input alone. -/
theorem perform_consumed_of_ne (p : Program) (xs ys : Array UInt8) (n : Nat) (m : Machine)
    {i : Instruction} (hi : i ≠ .input) :
    (m.consumed ys n).perform p ys i = (m.perform p xs i).consumed ys n := by
  have hcell : (m.consumed ys n).cell = m.cell := rfl
  cases i with
  | input => contradiction
  | loopOpen =>
    simp only [perform, effect, hcell]
    split <;> rfl
  | loopClose =>
    simp only [perform, effect, hcell]
    split <;> rfl
  | _ => rfl

theorem perform_consumed_input (p : Program) (xs : Array UInt8) (n : Nat) (m : Machine) :
    (m.consumed xs n).perform p xs .input =
      (m.write (stream xs n)).advance.consumed xs (n + 1) := by
  rw [perform, effect, read_consumed]
  rfl

/-- **One step** on two inputs: if the streams agree where it reads, it is the same step. -/
theorem step_consumed (hstep : (m.consumed xs n).step p xs = (.executed r, m'))
    (hagree : r.instruction = .input → stream ys n = stream xs n) :
    ∃ b : Machine, m' = b.consumed xs (n + reads [r]) ∧
      (m.consumed ys n).step p ys = (.executed r, b.consumed ys (n + reads [r])) := by
  rcases step_cases p xs (m.consumed xs n) with ⟨_, hs⟩ | ⟨_, _, _, _, hs⟩ | ⟨i, hi, hf, hs⟩
  · cases hstep.symm.trans hs
  · cases hstep.symm.trans hs
  · cases hstep.symm.trans hs
    have hf' : (m.consumed ys n).fault? p i = none := by
      rw [fault?_consumed] at hf ⊢
      exact hf
    rw [step_of_perform (m := m.consumed ys n) ys hi hf']
    by_cases hread : i = .input
    · subst hread
      refine ⟨(m.write (stream xs n)).advance, perform_consumed_input p xs n m, ?_⟩
      rw [perform_consumed_input, hagree rfl]
      rfl
    · have hnone : reads [(m.consumed xs n).record i] = 0 := by simp [reads, record, hread]
      rw [hnone, Nat.add_zero]
      refine ⟨m.perform p xs i, perform_consumed_of_ne p xs xs n m hread, ?_⟩
      rw [perform_consumed_of_ne p xs ys n m hread]
      rfl

/-- **A whole run** on two inputs: if the streams agree as far as it reads, it is the same run. -/
theorem Path.consumed (h : Path p xs (m.consumed xs n) rs m')
    (hagree : ∀ k < n + reads rs, stream ys k = stream xs k) :
    ∃ b : Machine, m' = b.consumed xs (n + reads rs) ∧
      Path p ys (m.consumed ys n) rs (b.consumed ys (n + reads rs)) := by
  -- the machine in front of the path has to stay a variable
  generalize hstart : m.consumed xs n = start at h
  induction h generalizing m n with
  | nil a => exact ⟨m, hstart.symm, .nil _⟩
  | @cons a a' _ r rs hs _ ih =>
    rw [reads_cons, ← Nat.add_assoc] at hagree ⊢
    subst hstart
    have hhere : r.instruction = .input → stream ys n = stream xs n := by
      intro hread
      have hone : reads [r] = 1 := by simp [reads, hread]
      exact hagree n (by omega)
    obtain ⟨b, hb, hstep⟩ := step_consumed hs hhere
    obtain ⟨c, hc, hrest⟩ := ih hagree hb.symm
    exact ⟨c, hc, .cons hstep hrest⟩

/-- Whatever has been consumed, an instruction that fails does so for the same fault. -/
theorem Refused.consumed {limit : Nat} {f : Fault} (h : Refused p xs limit m f) (ys : Array UInt8)
    (n : Nat) : Refused p ys limit (m.consumed ys n) f := by
  rcases h with ⟨hlt, hstep⟩ | ⟨hlimit, hip, hf⟩
  · obtain ⟨i, hi, hf⟩ := fault?_of_step_faulted hstep
    rw [← fault?_consumed (n := n)] at hf
    exact Or.inl ⟨hlt, step_of_fault? ys hi hf⟩
  · exact Or.inr ⟨hlimit, hip, hf⟩

theorem consumed_fresh (input : Array UInt8) (size : Nat) :
    (fresh size).consumed input 0 = fresh size := by
  simp only [consumed, fresh, Nat.zero_min]

/-- From a fresh start, the position in the input tells how often has been read, and the run on
another input differs from this one in that position only. -/
theorem Path.consumed_fresh {size : Nat} (h : Path p xs (.fresh size) rs m)
    (hagree : ∀ k < reads rs, stream ys k = stream xs k) :
    m.cursor = min (reads rs) xs.size ∧
      Path p ys (.fresh size) rs (m.consumed ys (reads rs)) := by
  rw [← Machine.consumed_fresh xs] at h
  obtain ⟨b, rfl, hpath⟩ := h.consumed (by rwa [Nat.zero_add])
  rw [Machine.consumed_fresh, Nat.zero_add] at hpath
  rw [Nat.zero_add]
  exact ⟨rfl, hpath⟩

end Machine

/-! ## Executions -/

namespace Interpreter

open Machine

variable {source : String} {p : Program} {rs : List Record} {m : Machine}

/-- The interpreter with another input. -/
def withInput (it : Interpreter) (input : Array UInt8) : Interpreter :=
  { it with config := { it.config with input := input } }

/-- The interpreter with records kept. -/
def capturing (it : Interpreter) : Interpreter :=
  { it with config := { it.config with capture := true } }

/-- The number of instructions that read in the execution of a source. -/
def readCount (it : Interpreter) (source : String) : Nat :=
  reads (it.capturing.execute source).2.history.toList

/-- The execution cannot tell the input from its own: it has the same result, leaves the same records
and the same machine, apart from the position in the input. -/
structure Indifferent (it : Interpreter) (source : String) (input : Array UInt8) : Prop where
  result : ((it.withInput input).execute source).1 = (it.execute source).1
  history : ((it.withInput input).execute source).2.history = (it.execute source).2.history
  machine : ((it.withInput input).execute source).2.machine =
    { (it.execute source).2.machine with cursor := min (it.readCount source) input.size }

/-- A source that does not parse leaves what an empty path leaves. -/
theorem settled_nil (it : Interpreter) :
    it.settled [] (.fresh it.config.memorySize) = it.reset := by
  simp [settled, reset, fresh]

/-- Two executions that end alike at the two ends of a path. -/
theorem indifferent_of_settled {x : Execution} {input : Array UInt8} (it : Interpreter)
    (hcount : it.readCount source = reads rs)
    (hown : it.execute source = (x, it.settled rs m))
    (hother : (it.withInput input).execute source =
      (x, (it.withInput input).settled rs (m.consumed input (reads rs)))) :
    it.Indifferent source input where
  result := by rw [hown, hother]
  history := by
    rw [hown, hother]
    rfl
  machine := by
    rw [hown, hother, hcount]
    rfl

/-- **An execution reads the stream**, as far as it reads. -/
theorem indifferent_of_stream (it : Interpreter) (source : String) {input : Array UInt8}
    (hagree : ∀ n < it.readCount source, stream input n = stream it.config.input n) :
    it.Indifferent source input ∧
      (it.execute source).2.machine.cursor = min (it.readCount source) it.config.input.size := by
  cases hp : Program.parse source with
  | error f =>
    have hcount : it.readCount source = reads [] := by
      rw [readCount, execute_of_parse_error _ hp]
      rfl
    have hown := execute_of_parse_error it hp
    have hother := execute_of_parse_error (it.withInput input) hp
    rw [← settled_nil] at hown hother
    rw [hcount, hown]
    exact ⟨indifferent_of_settled it hcount hown hother, (Nat.zero_min _).symm⟩
  | ok p =>
    -- with and without records, the path is the same
    obtain ⟨rs, m, hpath, hle, hcases⟩ := execute_cases it.capturing hp
    have hcount : it.readCount source = reads rs := by
      rw [readCount]
      rcases hcases with ⟨_, hexecute⟩ | ⟨_, _, hexecute⟩
      · rw [hexecute]
        rfl
      · rw [hexecute]
        rfl
    rw [hcount] at hagree ⊢
    obtain ⟨hcursor, hpath'⟩ := hpath.consumed_fresh hagree
    rcases hcases with ⟨hend, _⟩ | ⟨f, href, _⟩
    · have hown := execute_of_finished it hp hpath hle hend
      have hother := execute_of_finished (it.withInput input) hp hpath' hle hend
      refine ⟨indifferent_of_settled it hcount hown hother, ?_⟩
      rw [hown]
      exact hcursor
    · have hown := execute_of_refused it hp hpath href
      have hother := execute_of_refused (it.withInput input) hp hpath' (href.consumed _ _)
      refine ⟨indifferent_of_settled it hcount hown hother, ?_⟩
      rw [hown]
      exact hcursor

/-- **The input is a stream of bytes and then of zeros, read in order.**  Take any execution, however
it ends, and any other input.

* The position in the input is the number of instructions that have read, or the end of the input if
  they were more than that.
* If the two inputs, each with zeros behind it, agree on as many bytes as were read, then the
  execution on the other input has the same result, with the same output, count and records.  It
  leaves the same machine, apart from the position in the input.
* So it makes no difference to have more zeros at the end of the input, or other bytes behind those
  that were read. -/
theorem execute_reads_stream (it : Interpreter) (source : String) :
    (it.execute source).2.machine.cursor = min (it.readCount source) it.config.input.size ∧
    (∀ input, (∀ n < it.readCount source, stream input n = stream it.config.input n) →
      it.Indifferent source input) ∧
    (∀ count, it.Indifferent source (it.config.input ++ Array.replicate count 0)) ∧
    ∀ input : Array UInt8,
      input.toList.take (it.readCount source) =
          it.config.input.toList.take (it.readCount source) →
        it.Indifferent source input := by
  refine ⟨(indifferent_of_stream it source fun _ _ => rfl).2, ?_, ?_, ?_⟩
  · intro input hagree
    exact (indifferent_of_stream it source hagree).1
  · intro count
    refine (indifferent_of_stream it source ?_).1
    intro n _
    exact getD_append_zeros it.config.input count n
  · intro input htake
    refine (indifferent_of_stream it source ?_).1
    intro n hn
    have hbyte := congrArg (fun bytes => bytes[n]?) htake
    simp only [List.getElem?_take_of_lt hn, Array.getElem?_toList] at hbyte
    rw [stream, stream, Array.getD_eq_getD_getElem?, Array.getD_eq_getD_getElem?, hbyte]

/-- A program that reads up to a zero: whether the zero is there or the input ends makes no
difference. -/
theorem execute_reads_stream_zero :
    (fresh { memorySize := 1, maxIterations := 20, input := #[65, 66, 0, 67] }).readCount
        ",[.,]" = 3 ∧
      (fresh { memorySize := 1, maxIterations := 20, input := #[65, 66, 0, 67] }).Indifferent
        ",[.,]" #[65, 66] := by
  have hcount :
      (fresh { memorySize := 1, maxIterations := 20, input := #[65, 66, 0, 67] }).readCount
        ",[.,]" = 3 := rfl
  obtain ⟨_, hsame, _⟩ := execute_reads_stream
    (fresh { memorySize := 1, maxIterations := 20, input := #[65, 66, 0, 67] }) ",[.,]"
  refine ⟨hcount, hsame #[65, 66] ?_⟩
  rw [hcount]
  decide

end Interpreter

end TapeTutor
