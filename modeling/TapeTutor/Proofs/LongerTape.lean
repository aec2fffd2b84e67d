import TapeTutor.Proofs.Culprit

/-!
# A longer tape changes nothing but overflow

Put some zero cells behind the last cell of a tape.  A machine reads and writes the cell under its
head and nothing else, and the head is on the old part of the tape until it is moved off it.  The only
instruction that looks at the length of the tape is the one that moves the head to the right.

`Machine.widened` is the machine with the new cells.  A step commutes with it, unless it is the one
that overflows (`step_widened`).  So a path on the short tape is a path on the long one, with the same
records (`Path.widened`), and

* an execution that does not overflow comes to the same on the long tape (`execute_widened`),
* one that does is the beginning of the execution on the long tape: the two go together up to the
  instruction that overflows (`afterSteps_widened`, `outcomeAfter_widened`).

A captured run also keeps its leading cells, and these are more if the tape was too short for all of
them (`Completion.widened`).
-/

namespace TapeTutor

/-! ## Machines -/

namespace Machine

variable {config : Config} {p : Program} {input : Array UInt8} {m m' : Machine} {i : Instruction}
  {rs : List Record} (extra : Nat)

/-- The machine with zero cells behind its last cell. -/
def widened (m : Machine) : Machine := { m with tape := m.tape ++ Array.replicate extra 0 }

theorem widened_fresh (size : Nat) : (fresh size).widened extra = fresh (size + extra) := by
  simp only [widened, fresh, Array.replicate_append_replicate]

/-- The cell under the head is the same, also if the head is off the tape. -/
@[simp]
theorem cell_widened (m : Machine) : (m.widened extra).cell = m.cell :=
  getD_append_zeros m.tape extra m.head

theorem write_widened (hlt : m.head < m.tape.size) (value : UInt8) :
    (m.widened extra).write value = (m.write value).widened extra := by
  simp only [write, widened, Array.setIfInBounds_append_left hlt]

/-- A copy of the leading cells shows the new ones if it is long enough. -/
theorem snapshot_widened (m : Machine) (count : Nat) :
    (m.widened extra).snapshot 0 count =
      (m.snapshot 0 count ++ Array.replicate extra 0).extract 0 count := by
  simp only [snapshot, widened, Nat.zero_add, Array.extract_append, Array.extract_extract,
    Array.size_extract, Nat.zero_sub, Nat.sub_zero]
  congr 2 <;> omega

theorem read_widened (input : Array UInt8) (hlt : m.head < m.tape.size) :
    (m.widened extra).read input = (m.read input).widened extra := by
  have hcursor : (m.widened extra).cursor = m.cursor := rfl
  simp only [read, hcursor]
  split
  · rw [write_widened extra hlt]
    rfl
  · exact write_widened extra hlt 0

/-- What an instruction does, it does on the longer tape. -/
theorem perform_widened (p : Program) (input : Array UInt8) (hlt : m.head < m.tape.size)
    (i : Instruction) : (m.widened extra).perform p input i = (m.perform p input i).widened extra := by
  have heffect : (m.widened extra).effect p input i = (m.effect p input i).widened extra := by
    cases i with
    | right => rfl
    | left => rfl
    | increment => simp only [effect, cell_widened, write_widened extra hlt]
    | decrement => simp only [effect, cell_widened, write_widened extra hlt]
    | output =>
      simp only [effect, cell_widened]
      rfl
    | input => exact read_widened extra input hlt
    | loopOpen =>
      simp only [effect, cell_widened]
      split <;> rfl
    | loopClose =>
      simp only [effect, cell_widened]
      split <;> rfl
  rw [perform, heffect]
  rfl

/-- Only an overflow depends on the length of the tape. -/
theorem fault?_widened (hwithin : ∀ ip pointer, m.fault? p i ≠ some (.overflow ip pointer)) :
    (m.widened extra).fault? p i = m.fault? p i := by
  cases i with
  | right =>
    simp only [fault?] at hwithin ⊢
    split at hwithin
    · next hroom =>
      have hmore : (m.widened extra).head + 1 < (m.widened extra).tape.size := by
        simp only [widened, Array.size_append]
        omega
      rw [if_pos hmore, if_pos hroom]
    · exact absurd rfl (hwithin _ _)
  | left => rfl
  | loopOpen =>
    simp only [fault?, cell_widened]
    rfl
  | loopClose =>
    simp only [fault?, cell_widened]
    rfl
  | _ => rfl

/-- **One step** commutes with the new cells, unless it overflows. -/
theorem step_widened (hlt : m.head < m.tape.size)
    (hwithin : ∀ ip pointer, (m.step p input).1 ≠ .faulted (.overflow ip pointer)) :
    (m.widened extra).step p input = ((m.step p input).1, (m.step p input).2.widened extra) := by
  rcases step_cases p input m with ⟨hend, hs⟩ | ⟨i, f, hi, hf, hs⟩ | ⟨i, hi, hf, hs⟩
  · rw [hs, step_of_size_le (m := m.widened extra) input hend]
  · rw [hs] at hwithin ⊢
    have hf' : (m.widened extra).fault? p i = some f := by
      rw [fault?_widened extra, hf]
      rintro ip pointer hover
      exact hwithin ip pointer (congrArg Event.faulted (Option.some.inj (hf.symm.trans hover)))
    rw [step_of_fault? (m := m.widened extra) input hi hf']
  · rw [hs]
    have hf' : (m.widened extra).fault? p i = none := by
      rw [fault?_widened extra, hf]
      simp [hf]
    have hrecord : (m.widened extra).record i = m.record i := by
      simp only [record, cell_widened]
      rfl
    rw [step_of_perform (m := m.widened extra) input hi hf', hrecord,
      perform_widened extra p input hlt]

/-- **A whole run** commutes with the new cells. -/
theorem Path.widened (hfits : m.Fits config) (h : Path p config.input m rs m') :
    Path p config.input (m.widened extra) rs (m'.widened extra) := by
  -- the head has to be on the short tape before every step, so that it fits goes along
  induction h with
  | nil m => exact .nil _
  | cons hs _ ih =>
    refine .cons ?_ (ih (hfits.of_step hs))
    rw [step_widened extra hfits.head_lt (by simp [hs]), hs]

end Machine

/-! ## Executions -/

/-- A captured run keeps more leading cells if there are more. -/
def Completion.widened (extra : Nat) (c : Completion) : Completion :=
  { c with
    finalMemory := c.finalMemory.map fun cells =>
      (cells ++ Array.replicate extra 0).extract 0 capturedCells }

namespace Interpreter

open Machine

variable {source : String} {p : Program} {rs : List Record} {m : Machine} (extra : Nat)

/-- The interpreter with zero cells behind the last cell of its tape, and a configuration that knows
of them. -/
def widened (it : Interpreter) : Interpreter :=
  { it with
    config := { it.config with memorySize := it.config.memorySize + extra }
    machine := it.machine.widened extra }

/-- The execution has not overflowed the tape. -/
def WithinTape (x : Execution) : Prop :=
  ∀ e ip pointer, x = .error e → e.fault ≠ .overflow ip pointer

theorem reset_widened (it : Interpreter) : (it.widened extra).reset = it.reset.widened extra := by
  simp only [reset, fresh, widened, widened_fresh]

/-- All machines of an execution have their head on the tape.  Whether a machine fits has nothing to
do with the ceiling. -/
theorem fits_of_path (it : Interpreter) (hpos : 1 ≤ it.config.memorySize)
    (hpath : Path p it.config.input (.fresh it.config.memorySize) rs m) :
    m.Fits { it.config with maxIterations := 1 } := by
  have hfresh : Fits { it.config with maxIterations := 1 } (.fresh it.config.memorySize) :=
    fits_fresh ⟨hpos, Nat.le_refl 1⟩
  exact hfresh.of_path hpath

/-- The path of an execution is one on the longer tape. -/
theorem path_widened (it : Interpreter) (hpos : 1 ≤ it.config.memorySize)
    (hpath : Path p it.config.input (.fresh it.config.memorySize) rs m) :
    Path p (it.widened extra).config.input (.fresh (it.widened extra).config.memorySize) rs
      (m.widened extra) := by
  have hwide := Path.widened extra (fits_of_path (p := p) it hpos (.nil _)) hpath
  rwa [widened_fresh] at hwide

theorem completion_widened (config : Config) (m : Machine) (history : Array Record) :
    completion { config with memorySize := config.memorySize + extra }
        ⟨.finished, m.widened extra, history⟩ =
      (completion config ⟨.finished, m, history⟩).widened extra := by
  cases hcapture : config.capture with
  | false =>
    simp only [completion, Completion.widened, hcapture]
    rfl
  | true =>
    simp only [completion, Completion.widened, hcapture, snapshot_widened]
    rfl

/-- What is refused on the short tape is refused on the long one, an overflow apart. -/
theorem refused_widened {f : Fault} (it : Interpreter) (hpos : 1 ≤ it.config.memorySize)
    (hpath : Path p it.config.input (.fresh it.config.memorySize) rs m)
    (hwithin : ∀ ip pointer, f ≠ .overflow ip pointer)
    (href : Refused p it.config.input it.config.maxIterations m f) :
    Refused p (it.widened extra).config.input (it.widened extra).config.maxIterations
      (m.widened extra) f := by
  rcases href with ⟨hlt, hstep⟩ | ⟨hlimit, hip, hf⟩
  · refine Or.inl ⟨hlt, ?_⟩
    have hno : ∀ ip pointer, (m.step p it.config.input).1 ≠ .faulted (.overflow ip pointer) := by
      rw [hstep]
      rintro ip pointer ⟨⟩
      exact hwithin ip pointer rfl
    have hwide := step_widened extra (fits_of_path it hpos hpath).head_lt hno
    rwa [hstep] at hwide
  · exact Or.inr ⟨hlimit, hip, hf⟩

/-- **An execution that does not overflow** comes to the same on the longer tape. -/
theorem execute_widened (it : Interpreter) (hpos : 1 ≤ it.config.memorySize)
    (hwithin : WithinTape (it.execute source).1) :
    (it.widened extra).execute source =
      ((it.execute source).1.map (Completion.widened extra),
        (it.execute source).2.widened extra) := by
  cases hp : Program.parse source with
  | error f =>
    rw [execute_of_parse_error _ hp, execute_of_parse_error _ hp, reset_widened]
    rfl
  | ok p =>
    obtain ⟨rs, m, hpath, hle, ⟨hend, hexecute⟩ | ⟨f, href, hexecute⟩⟩ := execute_cases it hp
    · have hwide := path_widened extra it hpos hpath
      rw [hexecute, execute_of_finished _ hp hwide hle hend]
      exact congrArg (fun c => (Except.ok c, _)) (completion_widened extra it.config m rs.toArray)
    · have hf : ∀ ip pointer, f ≠ .overflow ip pointer := fun ip pointer =>
        hwithin _ ip pointer (congrArg Prod.fst hexecute)
      rw [hexecute, execute_of_refused _ hp (path_widened extra it hpos hpath)
        (refused_widened extra it hpos hpath hf href)]
      rfl

/-! ## An execution that overflows -/

/-- Any number of calls along a path leaves the same machine on either tape. -/
theorem afterSteps_widened (it : Interpreter) (hpos : 1 ≤ it.config.memorySize)
    (hp : Program.parse source = .ok p)
    (hpath : Path p it.config.input (.fresh it.config.memorySize) rs m) {k : Nat}
    (hk : k ≤ rs.length) :
    ((it.widened extra).reset.afterSteps source k).machine =
      (it.reset.afterSteps source k).machine.widened extra := by
  obtain ⟨a, hfirst⟩ := hpath.exists_take k
  have hshort := machine_afterSteps_of_path it hp hfirst
  have hlong := machine_afterSteps_of_path (it.widened extra) hp (path_widened extra it hpos hfirst)
  rw [List.length_take_of_le hk] at hshort hlong
  rw [hshort, hlong]

/-- Every call along a path comes to the same on either tape. -/
theorem outcomeAfter_widened (it : Interpreter) (hpos : 1 ≤ it.config.memorySize)
    (hp : Program.parse source = .ok p)
    (hpath : Path p it.config.input (.fresh it.config.memorySize) rs m) {k : Nat}
    (hk : k < rs.length) :
    ∃ r output, it.reset.outcomeAfter source k = .stepped r output ∧
      (it.widened extra).reset.outcomeAfter source k = .stepped r output := by
  have hrecord : rs.toArray[k]? = some rs[k] := by
    rw [List.getElem?_toArray, List.getElem?_eq_getElem hk]
  exact ⟨_, _, stepsThrough_of_path it hp hpath k _ hrecord,
    stepsThrough_of_path (it.widened extra) hp (path_widened extra it hpos hpath) k _ hrecord⟩

/-- **A longer tape changes nothing but overflow.**  Take an interpreter with a tape of one cell or
more, and put any number of zero cells behind the last one.

* An execution that does not overflow the short tape has the same result on the long one: the same
  fault, or the same success with the same output, count and records (and with more leading cells, if
  the short tape had too few).  It leaves the same machine, but for the zero cells, and the same
  records.
* An execution that overflows has its head on the last cell of the short tape.  Up to there the two
  go together: every call executes the same instruction on either tape and leaves the same machine.
  What the short tape has seen written and recorded is the beginning of what the long one sees. -/
theorem longer_tape_changes_only_overflow (it : Interpreter) (source : String)
    (hpos : 1 ≤ it.config.memorySize) (extra : Nat) :
    (WithinTape (it.execute source).1 →
      (it.widened extra).execute source =
        ((it.execute source).1.map (Completion.widened extra),
          (it.execute source).2.widened extra)) ∧
    ∀ e ip pointer, (it.execute source).1 = .error e → e.fault = .overflow ip pointer →
      pointer = it.config.memorySize - 1 ∧
      (∀ k ≤ e.iterations, ((it.widened extra).reset.afterSteps source k).machine =
        (it.reset.afterSteps source k).machine.widened extra) ∧
      (∀ k < e.iterations, ∃ r output,
        it.reset.outcomeAfter source k = .stepped r output ∧
          (it.widened extra).reset.outcomeAfter source k = .stepped r output) ∧
      e.iterations ≤ taken ((it.widened extra).execute source).1 ∧
      e.output.toList <+: (written ((it.widened extra).execute source).1).toList ∧
      (it.execute source).2.history.toList <+:
        ((it.widened extra).execute source).2.history.toList := by
  refine ⟨execute_widened extra it hpos, ?_⟩
  intro e ip pointer h hover
  have hbounds : e.fault.category = .bounds := by
    rw [hover]
    rfl
  obtain ⟨p, rs, m, f, hp, hpath, hlt, hstep, rfl, hleft⟩ :=
    exists_path_of_execute_bounds it h hbounds
  -- the two executions have in common the path in front of the instruction that overflows
  have hcount : (failure m f).iterations = rs.length := hpath.iterations_of_fresh
  have hwide := path_widened extra it hpos hpath
  obtain ⟨houtput, hhistory, htaken⟩ :=
    prefix_of_path (it.widened extra) hp hwide (Nat.le_of_lt hlt)
  have hpointer : pointer = it.config.memorySize - 1 := by
    rcases step_faulted_cases ⟨source, hp⟩ (fits_of_path it hpos hpath) hstep with
      ⟨_, rfl, hhead⟩ | ⟨_, rfl, _⟩
    · cases hover
      exact hhead
    · contradiction
  rw [hcount, hleft]
  refine ⟨hpointer, ?_, ?_, ?_, houtput, hhistory⟩
  · intro k hk
    exact afterSteps_widened extra it hpos hp hpath hk
  · intro k hk
    exact outcomeAfter_widened extra it hpos hp hpath hk
  · rw [← hcount]
    exact htaken

/-- A program that overflows a tape of two cells behind some output, and one that does not. -/
theorem longer_tape_changes_only_overflow_two_cells :
    ((fresh { memorySize := 2, maxIterations := 20 }).execute "+.>+.>.").1 =
        .error ⟨.overflow 5 1, #[1, 1], 5⟩ ∧
      [1, 1] <+: (written (((fresh { memorySize := 2, maxIterations := 20 }).widened 1).execute
        "+.>+.>.").1).toList ∧
      (((fresh { memorySize := 2, maxIterations := 20 }).widened 1).execute "+.>+.<").1 =
        ((fresh { memorySize := 2, maxIterations := 20 }).execute "+.>+.<").1.map
          (Completion.widened 1) := by
  have he : ((fresh { memorySize := 2, maxIterations := 20 }).execute "+.>+.>.").1 =
      .error ⟨.overflow 5 1, #[1, 1], 5⟩ := rfl
  obtain ⟨c, hc⟩ : ∃ c, ((fresh { memorySize := 2, maxIterations := 20 }).execute "+.>+.<").1 =
      .ok c := ⟨_, rfl⟩
  have hwithin : WithinTape
      ((fresh { memorySize := 2, maxIterations := 20 }).execute "+.>+.<").1 := by
    rw [hc]
    simp [WithinTape]
  obtain ⟨_, hoverflows⟩ := longer_tape_changes_only_overflow
    (fresh { memorySize := 2, maxIterations := 20 }) "+.>+.>." (show 1 ≤ 2 by decide) 1
  obtain ⟨hsame, _⟩ := longer_tape_changes_only_overflow
    (fresh { memorySize := 2, maxIterations := 20 }) "+.>+.<" (show 1 ≤ 2 by decide) 1
  obtain ⟨_, _, _, _, houtput, _⟩ := hoverflows _ 5 1 he rfl
  exact ⟨he, houtput, congrArg Prod.fst (hsame hwithin)⟩

end Interpreter

end TapeTutor
