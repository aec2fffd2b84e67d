import TapeTutor.Proofs.Reachable
import TapeTutor.Report.Trace

/-!
# A trace judged in hindsight

A record holds what an instruction found.  The trace table words what the instruction did from
that and from the jumps of the program alone: it is a second account of all eight instructions, and
it never looks at what came of them.

What came of an instruction can be seen all the same.  The next record holds it, and behind the last
record it is in the machine that the run has left.  So there are two things to compare.

* A `Moment` is what can be seen between two instructions, of a record and of a machine alike.
  `momentAfter` is the moment behind the `k`-th record of a history.
* `Trace.Depicts` says which words are true of an instruction between two moments.  It knows the
  code, because a jump has to name a bracket, but neither the table of jumps nor the effect of any
  instruction.

One step is depicted by the words of the table (`Trace.depicts_action`).  A path can be cut behind
any of its records (`Path.split`), and what is left of it begins at the moment behind the cut
(`Path.moment_eq`), so every row of the table is true (`Trace.truthful_table`).
-/

namespace TapeTutor

/-! ## Moments -/

/-- What can be seen between two instructions. -/
structure Moment where
  /-- The cell under the head. -/
  pointer : Nat
  /-- The value of that cell. -/
  value : UInt8
  /-- The position of the next instruction. -/
  ip : Nat
deriving DecidableEq, Repr

/-- The moment before the instruction of a record. -/
def Record.moment (r : Record) : Moment := ⟨r.pointer, r.value, r.ip⟩

/-- The moment that a machine is in. -/
def Machine.moment (m : Machine) : Moment := ⟨m.head, m.cell, m.ip⟩

/-- The moment behind the `k`-th of some records: the one before the next record, or the one of the
machine at the end. -/
def momentAfter (rs : List Record) (last : Machine) (k : Nat) : Moment :=
  (rs[k + 1]?.map Record.moment).getD last.moment

namespace Machine

variable {p : Program} {input : Array UInt8} {m m' : Machine} {r : Record} {rs : List Record}

theorem cell_fresh (size : Nat) : (fresh size).cell = 0 := by
  cases size with
  | zero => rfl
  | succ size => simp [fresh, cell]

/-- What is written to a cell of the tape is there. -/
theorem cell_write (hlt : m.head < m.tape.size) (v : UInt8) : (m.write v).cell = v := by
  simp [write, cell, hlt]

/-- Both brackets leave everything but the position as it was. -/
theorem moment_loopOpen (input : Array UInt8) {target : Nat} (ht : p.target? m.ip = some target) :
    (m.perform p input .loopOpen).moment =
      { m.moment with ip := (if m.cell = 0 then target else m.ip) + 1 } := by
  simp only [perform, effect, jump, ht, Option.getD_some]
  split <;> rfl

theorem moment_loopClose (input : Array UInt8) {target : Nat} (ht : p.target? m.ip = some target) :
    (m.perform p input .loopClose).moment =
      { m.moment with ip := (if m.cell = 0 then m.ip else target) + 1 } := by
  simp only [perform, effect, jump, ht, Option.getD_some]
  split <;> rfl

/-- A path can be cut behind any of its records. -/
theorem Path.split (h : Path p input m rs m') {k : Nat} (hk : rs[k]? = some r) :
    ∃ a b, Path p input m (rs.take k) a ∧ a.step p input = (.executed r, b) ∧
      Path p input b (rs.drop (k + 1)) m' := by
  induction h generalizing k with
  | nil m => simp at hk
  | @cons m m₁ m₂ r₀ rs hs hrest ih =>
    cases k with
    | zero =>
      rw [List.getElem?_cons_zero] at hk
      cases hk
      exact ⟨m, m₁, .nil m, hs, hrest⟩
    | succ k =>
      rw [List.getElem?_cons_succ] at hk
      obtain ⟨a, b, hbefore, hstep, hafter⟩ := ih hk
      exact ⟨a, b, .cons hs hbefore, hstep, hafter⟩

/-- A path begins at the moment of its first record, or is over. -/
theorem Path.moment_eq (h : Path p input m rs m') :
    m.moment = (rs.head?.map Record.moment).getD m'.moment := by
  cases h with
  | nil => rfl
  | cons hs _ =>
    obtain ⟨i, _, rfl, _⟩ := eq_of_step_executed hs
    rfl

/-- Every record of a path is that of an instruction, and the next moment is the one that the
instruction makes. -/
theorem Path.exists_perform (h : Path p input m rs m') {k : Nat} (hk : rs[k]? = some r) :
    ∃ a i, Path p input m (rs.take k) a ∧ p.get? a.ip = some i ∧ a.fault? p i = none ∧
      r = a.record i ∧ momentAfter rs m' k = (a.perform p input i).moment := by
  obtain ⟨a, b, hbefore, hstep, hafter⟩ := h.split hk
  rcases step_cases p input a with ⟨_, hs⟩ | ⟨_, _, _, _, hs⟩ | ⟨i, hi, hf, hs⟩
  · cases hstep.symm.trans hs
  · cases hstep.symm.trans hs
  · cases hstep.symm.trans hs
    refine ⟨a, i, hbefore, hi, hf, rfl, ?_⟩
    rw [hafter.moment_eq, List.head?_drop]
    rfl

end Machine

/-! ## True words -/

namespace Trace

open Text (alignLeft)

/-- A cell by its number. -/
def cellName (n : Nat) : String := "cell[" ++ toString n ++ "]"

/-- The words that are true of an instruction, by the moments before and after it. -/
inductive Depicts (p : Program) (before after : Moment) : Instruction → String → Prop
  /-- A move is told by where the head has come to. -/
  | moved {i : Instruction} :
      i = .right ∧ after.pointer = before.pointer + 1 ∨
        i = .left ∧ after.pointer + 1 = before.pointer →
      after.ip = before.ip + 1 →
      Depicts p before after i ("Moved pointer head to index " ++ toString after.pointer)
  /-- A change is told by the values before and after it. -/
  | incremented :
      after.pointer = before.pointer → after.ip = before.ip + 1 →
      Depicts p before after .increment
        ("Increment " ++ cellName before.pointer ++ " from " ++ toString before.value.toNat ++
          " to " ++ toString after.value.toNat)
  | decremented :
      after.pointer = before.pointer → after.ip = before.ip + 1 →
      Depicts p before after .decrement
        ("Decrement " ++ cellName before.pointer ++ " from " ++ toString before.value.toNat ++
          " to " ++ toString after.value.toNat)
  /-- Output is told by the byte, which stays in the cell. -/
  | written :
      after = { before with ip := before.ip + 1 } →
      Depicts p before after .output
        ("Output byte " ++ toString before.value.toNat ++ " (" ++
          Text.quotedChar (Text.charOfByte before.value) ++ ")")
  /-- Input is told by the cell it goes to. -/
  | read :
      after.pointer = before.pointer → after.ip = before.ip + 1 →
      Depicts p before after .input
        ("Read input byte into " ++ cellName before.pointer)
  /-- A loop that is skipped is told by the bracket behind which the program goes on. -/
  | skipped {target : Nat} :
      before.value = 0 → p.get? target = some .loopClose →
      after = { before with ip := target + 1 } →
      Depicts p before after .loopOpen
        ("Cell is 0; jump forward to matching ']' at IP " ++ toString target)
  | entered :
      before.value ≠ 0 → after = { before with ip := before.ip + 1 } →
      Depicts p before after .loopOpen "Cell != 0; enter loop"
  /-- A loop that is repeated is told by the bracket behind which the program goes on. -/
  | repeated {target : Nat} :
      before.value ≠ 0 → p.get? target = some .loopOpen →
      after = { before with ip := target + 1 } →
      Depicts p before after .loopClose
        ("Cell != 0; jump back to matching '[' at IP " ++ toString target)
  | exited :
      before.value = 0 → after = { before with ip := before.ip + 1 } →
      Depicts p before after .loopClose "Cell is 0; exit loop"

/-- A row of the table: the step, what its record holds, and some words about it. -/
def line (step : Nat) (r : Record) (words : String) : String :=
  alignLeft 4 (toString step) ++ " | " ++ alignLeft 3 (toString r.ip) ++ " | " ++
    alignLeft 3 (toString r.pointer) ++ " | " ++ alignLeft 4 (toString r.value.toNat) ++
    " |  " ++ r.instruction.text ++ "    | " ++ words ++ "\n"

/-- A table has a row for each record of a history, in order, and the words of each row are true of
what has happened until the next record, or until the end. -/
def Truthful (p : Program) (history : Array Record) (last : Machine) (table : String) : Prop :=
  ∃ rows : List String, table = head ++ String.join rows ∧ rows.length = history.size ∧
    ∀ k r, history[k]? = some r → ∃ words, rows[k]? = some (line k r words) ∧
      Depicts p r.moment (momentAfter history.toList last k) r.instruction words

variable {p : Program} {input : Array UInt8} {m m' : Machine}

/-- **One step** is depicted by the words of the table. -/
theorem depicts_action {config : Config} (hp : p.Parsed) (hfits : m.Fits config) {i : Instruction}
    (hi : p.get? m.ip = some i) (hf : m.fault? p i = none) (input : Array UInt8) :
    Depicts p m.moment (m.perform p input i).moment i (action p (m.record i)) := by
  have hcode : p.code.toList[m.ip]? = some i := by
    rw [Array.getElem?_toList]
    exact hi
  cases i with
  | right => exact .moved (Or.inl ⟨rfl, rfl⟩) rfl
  | left =>
    have hhead : m.head ≠ 0 := by
      intro hzero
      simp [Machine.fault?, hzero] at hf
    refine .moved (Or.inr ⟨rfl, ?_⟩) rfl
    show m.head - 1 + 1 = m.head
    omega
  | increment =>
    have hcell : (m.perform p input .increment).moment.value = m.cell + 1 :=
      Machine.cell_write hfits.head_lt _
    have hwords : Depicts p m.moment (m.perform p input .increment).moment .increment _ :=
      .incremented rfl rfl
    rw [hcell] at hwords
    exact hwords
  | decrement =>
    have hcell : (m.perform p input .decrement).moment.value = m.cell - 1 :=
      Machine.cell_write hfits.head_lt _
    have hwords : Depicts p m.moment (m.perform p input .decrement).moment .decrement _ :=
      .decremented rfl rfl
    rw [hcell] at hwords
    exact hwords
  | output => exact .written rfl
  | input =>
    have hread : (m.read input).head = m.head ∧ (m.read input).ip = m.ip := by
      unfold Machine.read
      split <;> exact ⟨rfl, rfl⟩
    exact .read hread.1 (congrArg (· + 1) hread.2)
  | loopOpen =>
    obtain ⟨t, htarget, hmatched⟩ := hp.paired.target?_opener hcode
    have hclose : p.get? t = some .loopClose := by
      rw [Program.get?, ← Array.getElem?_toList]
      exact hmatched.closer
    have hafter := Machine.moment_loopOpen input htarget
    by_cases hcell : m.cell = 0
    · rw [if_pos hcell] at hafter
      simpa [action, Machine.record, hcell, htarget] using Depicts.skipped hcell hclose hafter
    · rw [if_neg hcell] at hafter
      simpa [action, Machine.record, hcell] using Depicts.entered (p := p) hcell hafter
  | loopClose =>
    obtain ⟨t, htarget, hmatched⟩ := hp.paired.target?_closer hcode
    have hopen : p.get? t = some .loopOpen := by
      rw [Program.get?, ← Array.getElem?_toList]
      exact hmatched.opener
    have hafter := Machine.moment_loopClose input htarget
    by_cases hcell : m.cell = 0
    · rw [if_pos hcell] at hafter
      simpa [action, Machine.record, hcell] using Depicts.exited (p := p) hcell hafter
    · rw [if_neg hcell] at hafter
      simpa [action, Machine.record, hcell, htarget] using Depicts.repeated hcell hopen hafter

/-- **A whole run** is depicted by the rows of the table. -/
theorem truthful_table {config : Config} (hp : p.Parsed) (hfits : m.Fits config)
    {rs : List Record} (hpath : Machine.Path p config.input m rs m') :
    Truthful p rs.toArray m' (table p rs.toArray) := by
  have htable : table p rs.toArray =
      head ++ String.join (rs.zipIdx.map fun x => row p x.1 x.2) := by
    rw [table, List.toList_toArray]
  refine ⟨_, htable, by simp, fun k r hk => ?_⟩
  rw [List.getElem?_toArray] at hk
  obtain ⟨a, i, hbefore, hi, hf, rfl, hafter⟩ := hpath.exists_perform hk
  refine ⟨action p (a.record i), ?_, ?_⟩
  · rw [List.getElem?_map, List.getElem?_zipIdx, hk]
    simp [row, line]
  · rw [List.toList_toArray, hafter]
    exact depicts_action hp (hfits.of_path hbefore) hi hf config.input

end Trace

/-! ## Captured executions -/

namespace Interpreter

open Machine

/-- The interpreter with records kept, or not. -/
def withCapture (it : Interpreter) (capture : Bool) : Interpreter :=
  { it with config := { it.config with capture := capture } }

/-- **Keeping records or not makes no difference to a success**: the same output and count, and the
same machine is left. -/
theorem execute_withCapture {source : String} {c : Completion} (it : Interpreter) (capture : Bool)
    (hok : (it.execute source).1 = .ok c) :
    ∃ c', ((it.withCapture capture).execute source).1 = .ok c' ∧ c'.output = c.output ∧
      c'.iterations = c.iterations ∧
      ((it.withCapture capture).execute source).2.machine = (it.execute source).2.machine := by
  obtain ⟨p, rs, m, hp, hpath, hle, hend, rfl, hleft⟩ := exists_path_of_execute_ok it hok
  rw [execute_of_finished (it.withCapture capture) hp hpath hle hend, hleft]
  exact ⟨_, rfl, rfl, rfl, rfl⟩

/-- The characters that the output records of a history stand for. -/
def shownBy (history : Array Record) : String :=
  String.ofList ((history.toList.filter (·.instruction = .output)).map fun r =>
    Char.ofNat r.value.toNat)

/-- What a path has printed, as text. -/
theorem showBytes_printed (rs : List Record) :
    Text.showBytes (printed rs).toArray = shownBy rs.toArray := by
  rw [Text.showBytes, shownBy, List.toList_toArray, List.toList_toArray]
  congr 1
  induction rs with
  | nil => rfl
  | cons r rs ih =>
    by_cases hr : r.instruction = .output
    · simpa [printed, hr, Text.charOfByte] using ih
    · simpa [printed, hr] using ih

/-- **A captured history and its trace tell the truth.**  Take an execution that keeps its records
and succeeds.  There is a record for each instruction counted, and the first one shows the fresh
machine.  The output is what the output records show.  Without records it would have come to the
same.  And each row of the trace table says what its instruction has really done, as the next record
shows, or the machine at the end. -/
theorem captured_tells_truth (it : Interpreter) {source : String} {c : Completion}
    (hvalid : it.config.Valid) (hcapture : it.config.capture = true)
    (hok : (it.execute source).1 = .ok c) :
    ∃ p history, Program.parse source = .ok p ∧ c.history = some history ∧
      history.size = c.iterations ∧
      (∀ r, history[0]? = some r → r.pointer = 0 ∧ r.value = 0 ∧ r.ip = 0) ∧
      Text.showBytes c.output = shownBy history ∧
      (∃ c', ((it.withCapture false).execute source).1 = .ok c' ∧ c'.output = c.output ∧
        c'.iterations = c.iterations ∧
        ((it.withCapture false).execute source).2.machine = (it.execute source).2.machine) ∧
      Trace.Truthful p history (it.execute source).2.machine (Trace.table p history) := by
  have hoff := execute_withCapture it false hok
  obtain ⟨p, rs, m, hp, hpath, _, _, rfl, hleft⟩ := exists_path_of_execute_ok it hok
  have hfirst : ∀ r, rs.toArray[0]? = some r → r.pointer = 0 ∧ r.value = 0 ∧ r.ip = 0 := by
    intro r hr
    rw [List.getElem?_toArray] at hr
    obtain ⟨a, i, hbefore, _, _, rfl, _⟩ := hpath.exists_perform hr
    cases hbefore
    exact ⟨rfl, cell_fresh _, rfl⟩
  have houtput : m.output = (printed rs).toArray := by
    apply Array.toList_inj.mp
    simpa [Machine.fresh] using hpath.output_eq
  refine ⟨p, rs.toArray, hp, if_pos hcapture, ?_, hfirst, ?_, hoff, ?_⟩
  · exact hpath.iterations_of_fresh.symm
  · show Text.showBytes m.output = _
    rw [houtput, showBytes_printed]
  · rw [hleft]
    exact Trace.truthful_table ⟨source, hp⟩ (fits_fresh hvalid) hpath

/-- A loop that is entered, repeated and left, and another one that is skipped. -/
theorem captured_tells_truth_loops :
    ∃ c p history,
      ((fresh { memorySize := 2, maxIterations := 40, capture := true }).execute
        "++[>+<-]>.<[-]").1 = .ok c ∧
      Program.parse "++[>+<-]>.<[-]" = .ok p ∧ c.history = some history ∧ history.size = 17 ∧
      Text.showBytes c.output = shownBy history ∧
      Trace.Truthful p history
        ((fresh { memorySize := 2, maxIterations := 40, capture := true }).execute
          "++[>+<-]>.<[-]").2.machine (Trace.table p history) := by
  obtain ⟨c, hc, hcount⟩ :
      ∃ c, ((fresh { memorySize := 2, maxIterations := 40, capture := true }).execute
        "++[>+<-]>.<[-]").1 = .ok c ∧ c.iterations = 17 := ⟨_, rfl, rfl⟩
  obtain ⟨p, history, hp, hhistory, hsize, _, hshown, _, htable⟩ :=
    captured_tells_truth (fresh { memorySize := 2, maxIterations := 40, capture := true })
      (by decide) rfl hc
  exact ⟨c, p, history, hc, hp, hhistory, hsize.trans hcount, hshown, htable⟩

end Interpreter

end TapeTutor
