import TapeTutor.Interpreter

/-!
# Runs as paths

A run of the machine is a sequence of executed instructions.  `Machine.Path` names that
sequence: `Path p input m rs m'` says that from `m` the program executes exactly the
instructions of the records `rs`, one after the other, and that `m'` is the machine behind the
last of them.  Nothing in a path knows about a ceiling, a history or a session, which is why
every way of driving the machine can be compared with it.

* `step_cases`: what a step can do, once and for all.
* `Path.append`, `Path.iterations_eq`, `Path.output_eq`: a path counts its records, and its
  output is what its output records saw.
* `exists_path`: under a ceiling every machine has a path to the end of its program, or to an
  instruction that is refused there (`Machine.Refused`).
* `execute_of_finished`, `execute_of_refused`: such a path is what an execution does, and
  `execute_cases` says that there is always one.
* `exists_path_of_execute_ok`, `exists_path_of_execute_error`: the way back, from a result to the
  path it comes from.
* `reported_execute`, `iterations_le_of_execute`: what an execution reports is what its machine has
  written and counted, and a success stays within the ceiling.
* `execute_raise`, `prefix_of_path`: a higher ceiling changes nothing unless the lower one was felt,
  and what a path has written and recorded is the beginning of what the execution does.
-/

namespace TapeTutor

namespace Program

theorem get?_eq_none_iff {p : Program} {ip : Nat} : p.get? ip = none ↔ p.size ≤ ip :=
  Array.getElem?_eq_none_iff

theorem lt_size_of_get? {p : Program} {ip : Nat} {i : Instruction} (h : p.get? ip = some i) :
    ip < p.size := by
  by_cases hlt : ip < p.size
  · exact hlt
  · have hnone : p.get? ip = none := get?_eq_none_iff.mpr (by omega)
    rw [h] at hnone
    contradiction

end Program

namespace Machine

variable {p : Program} {input : Array UInt8} {m m' m'' : Machine} {r : Record}
  {rs rs' : List Record}

/-! ## One step -/

/-- Everything a step can do: there is no instruction, or it cannot be executed, or it is. -/
theorem step_cases (p : Program) (input : Array UInt8) (m : Machine) :
    (p.size ≤ m.ip ∧ m.step p input = (.halted, m)) ∨
    (∃ i f, p.get? m.ip = some i ∧ m.fault? p i = some f ∧
      m.step p input = (.faulted f, m)) ∨
    (∃ i, p.get? m.ip = some i ∧ m.fault? p i = none ∧
      m.step p input = (.executed (m.record i), m.perform p input i)) := by
  cases hi : p.get? m.ip with
  | none => exact Or.inl ⟨Program.get?_eq_none_iff.mp hi, step_of_get?_eq_none input hi⟩
  | some i =>
    cases hf : m.fault? p i with
    | some f => exact Or.inr (Or.inl ⟨i, f, rfl, hf, step_of_fault? input hi hf⟩)
    | none => exact Or.inr (Or.inr ⟨i, rfl, hf, step_of_perform input hi hf⟩)

theorem step_of_size_le (input : Array UInt8) (h : p.size ≤ m.ip) :
    m.step p input = (.halted, m) :=
  step_of_get?_eq_none input (Program.get?_eq_none_iff.mpr h)

theorem eq_of_step_executed (h : m.step p input = (.executed r, m')) :
    ∃ i, p.get? m.ip = some i ∧ r = m.record i ∧ m' = m.perform p input i := by
  rcases step_cases p input m with ⟨_, hs⟩ | ⟨_, _, _, _, hs⟩ | ⟨i, hi, _, hs⟩
  · cases h.symm.trans hs
  · cases h.symm.trans hs
  · cases h.symm.trans hs
    exact ⟨i, hi, rfl, rfl⟩

/-- Everything that can keep an instruction from being executed. -/
theorem fault?_cases {i : Instruction} {f : Fault} (h : m.fault? p i = some f) :
    (i = .right ∧ f = .overflow m.ip m.head ∧ m.tape.size ≤ m.head + 1) ∨
      (i = .left ∧ f = .underflow m.ip ∧ m.head = 0) ∨ f = .brokenJump m.ip := by
  cases i with
  | right =>
    simp only [fault?] at h
    split at h
    · contradiction
    · next hedge =>
      cases h
      exact Or.inl ⟨rfl, rfl, Nat.le_of_not_lt hedge⟩
  | left =>
    simp only [fault?] at h
    split at h
    · next hzero =>
      cases h
      exact Or.inr (Or.inl ⟨rfl, rfl, hzero⟩)
    · contradiction
  | loopOpen =>
    simp only [fault?] at h
    split at h
    · cases h
      exact Or.inr (Or.inr rfl)
    · contradiction
  | loopClose =>
    simp only [fault?] at h
    split at h
    · cases h
      exact Or.inr (Or.inr rfl)
    · contradiction
  | _ => contradiction

theorem fault?_of_step_faulted {f : Fault} (h : m.step p input = (.faulted f, m')) :
    ∃ i, p.get? m.ip = some i ∧ m.fault? p i = some f := by
  rcases step_cases p input m with ⟨_, hs⟩ | ⟨i, g, hi, hg, hs⟩ | ⟨_, _, _, hs⟩
  · cases h.symm.trans hs
  · cases h.symm.trans hs
    exact ⟨i, hi, hg⟩
  · cases h.symm.trans hs

theorem iterations_of_step_executed (h : m.step p input = (.executed r, m')) :
    m'.iterations = m.iterations + 1 := by
  obtain ⟨i, _, _, rfl⟩ := eq_of_step_executed h
  exact iterations_perform p input m i

/-! ## What records say about the output -/

/-- The bytes that the output instructions of a list of records have written. -/
def printed (rs : List Record) : List UInt8 :=
  rs.filterMap fun r => if r.instruction = .output then some r.value else none

@[simp]
theorem printed_nil : printed [] = [] := rfl

theorem printed_append (rs rs' : List Record) :
    printed (rs ++ rs') = printed rs ++ printed rs' :=
  List.filterMap_append

/-- Only an output instruction writes, and it writes the value its record shows. -/
theorem output_perform (p : Program) (input : Array UInt8) (m : Machine) (i : Instruction) :
    (m.perform p input i).output.toList = m.output.toList ++ printed [m.record i] := by
  cases i with
  | output => simp [perform, effect, advance, printed, record]
  | input =>
    simp only [perform, effect, advance, read]
    split <;> simp [printed, record, write]
  | loopOpen =>
    simp only [perform, effect, advance]
    split <;> simp [printed, record, jump]
  | loopClose =>
    simp only [perform, effect, advance]
    split <;> simp [printed, record, jump]
  | _ => simp [perform, effect, advance, printed, record, write]

theorem output_of_step_executed (h : m.step p input = (.executed r, m')) :
    m'.output.toList = m.output.toList ++ printed [r] := by
  obtain ⟨i, _, rfl, rfl⟩ := eq_of_step_executed h
  exact output_perform p input m i

/-! ## Paths -/

/-- From `m` the program executes the instructions of the records, in order, and arrives at
the last machine. -/
inductive Path (p : Program) (input : Array UInt8) : Machine → List Record → Machine → Prop
  | nil (m : Machine) : Path p input m [] m
  | cons {m m' m'' : Machine} {r : Record} {rs : List Record} :
      m.step p input = (.executed r, m') → Path p input m' rs m'' →
        Path p input m (r :: rs) m''

namespace Path

theorem single (h : m.step p input = (.executed r, m')) : Path p input m [r] m' :=
  .cons h (.nil m')

theorem append (h : Path p input m rs m') (h' : Path p input m' rs' m'') :
    Path p input m (rs ++ rs') m'' := by
  induction h with
  | nil m => exact h'
  | cons hs _ ih => exact .cons hs (ih h')

/-- A path of `n` records executes `n` instructions. -/
theorem iterations_eq (h : Path p input m rs m') :
    m'.iterations = m.iterations + rs.length := by
  induction h with
  | nil m => rfl
  | cons hs _ ih =>
    rw [ih, iterations_of_step_executed hs, List.length_cons]
    omega

/-- From a fresh start, the count of the machine is the number of records. -/
theorem iterations_of_fresh {size : Nat} (h : Path p input (.fresh size) rs m) :
    m.iterations = rs.length := by
  rw [h.iterations_eq, fresh, Nat.zero_add]

theorem output_eq (h : Path p input m rs m') :
    m'.output.toList = m.output.toList ++ printed rs := by
  induction h with
  | nil m => rw [printed_nil, List.append_nil]
  | cons hs _ ih =>
    rw [ih, output_of_step_executed hs, List.append_assoc, ← printed_append]
    rfl

/-- A path can be cut anywhere. -/
theorem exists_take (h : Path p input m rs m') (k : Nat) : ∃ a, Path p input m (rs.take k) a := by
  induction h generalizing k with
  | nil m =>
    rw [List.take_nil]
    exact ⟨m, .nil m⟩
  | @cons m _ _ _ _ hs _ ih =>
    cases k with
    | zero => exact ⟨m, .nil m⟩
    | succ k =>
      obtain ⟨a, hpath⟩ := ih k
      exact ⟨a, .cons hs hpath⟩

/-- A path can be cut at any of its records: the record is what the step there executes. -/
theorem exists_step (h : Path p input m rs m') {k : Nat} (hk : rs[k]? = some r) :
    ∃ a b, Path p input m (rs.take k) a ∧ a.step p input = (.executed r, b) := by
  induction h generalizing k with
  | nil m => simp at hk
  | @cons m m₁ m₂ r₀ rs hs hrest ih =>
    cases k with
    | zero =>
      rw [List.getElem?_cons_zero] at hk
      cases hk
      exact ⟨m, m₁, .nil m, hs⟩
    | succ k =>
      rw [List.getElem?_cons_succ] at hk
      obtain ⟨a, b, hpath, hstep⟩ := ih hk
      exact ⟨a, b, .cons hs hpath, hstep⟩

end Path

/-! ## Bounded runs -/

/-- A bounded run follows a path that its allowance covers. -/
theorem run_of_path (capture : Bool) (h : Path p input m rs m') (allowance : Nat)
    (history : Array Record) :
    run p input capture (rs.length + allowance) m history =
      run p input capture allowance m'
        (if capture then history ++ rs.toArray else history) := by
  induction h generalizing history with
  | nil m => simp
  | @cons m m₁ m₂ r rs hs _ ih =>
    rw [List.length_cons, show rs.length + 1 + allowance = (rs.length + allowance) + 1 by omega,
      run, hs]
    simp only [ih]
    cases capture with
    | false => rfl
    | true => simp

/-- Why a machine under a ceiling goes no further, although its program has not ended: the next
instruction cannot be executed, or the ceiling is reached. -/
def Refused (p : Program) (input : Array UInt8) (limit : Nat) (m : Machine) (f : Fault) : Prop :=
  (m.iterations < limit ∧ m.step p input = (.faulted f, m)) ∨
    (m.iterations = limit ∧ m.ip < p.size ∧ f = .ceiling limit)

/-- Under a ceiling every machine comes to the end of its program or is refused. -/
theorem exists_path (p : Program) (input : Array UInt8) {limit : Nat} {m : Machine}
    (hle : m.iterations ≤ limit) :
    ∃ rs m', Path p input m rs m' ∧ m'.iterations ≤ limit ∧
      (p.size ≤ m'.ip ∨ ∃ f, Refused p input limit m' f) := by
  induction hleft : limit - m.iterations generalizing m with
  | zero =>
    refine ⟨[], m, .nil m, hle, ?_⟩
    by_cases hend : p.size ≤ m.ip
    · exact Or.inl hend
    · exact Or.inr ⟨_, Or.inr ⟨by omega, by omega, rfl⟩⟩
  | succ left ih =>
    rcases step_cases p input m with ⟨hend, _⟩ | ⟨_, f, _, _, hs⟩ | ⟨i, _, _, hs⟩
    · exact ⟨[], m, .nil m, hle, Or.inl hend⟩
    · exact ⟨[], m, .nil m, hle, Or.inr ⟨f, Or.inl ⟨by omega, hs⟩⟩⟩
    · have hcount := iterations_perform p input m i
      obtain ⟨rs, m', hpath, hrest⟩ := ih (m := m.perform p input i) (by omega) (by omega)
      exact ⟨m.record i :: rs, m', .cons hs hpath, hrest⟩

end Machine

/-! ## Executions -/

namespace Interpreter

open Machine

/-- A new interpreter is a fresh start with a configuration that can be used. -/
theorem valid_of_new {config : Config} {it : Interpreter}
    (h : new config = .ok it) : config.Valid ∧ it = fresh config := by
  unfold new at h
  split at h
  · contradiction
  · next hfault =>
    cases h
    exact ⟨Config.fault?_eq_none_iff.mp hfault, rfl⟩

theorem new_of_valid {config : Config} (h : config.Valid) : new config = .ok (fresh config) := by
  rw [new, Config.fault?_eq_none_iff.mpr h]

/-- A source that does not parse leaves a fresh start behind. -/
theorem execute_of_parse_error {source : String} {f : Fault} (it : Interpreter)
    (hp : Program.parse source = .error f) :
    it.execute source = (.error (failure it.reset.machine f), it.reset) := by
  simp only [execute, hp]
  rfl

/-- The interpreter that an execution leaves behind when its path ends at `m`. -/
def settled (it : Interpreter) (rs : List Record) (m : Machine) : Interpreter where
  config := it.config
  machine := m
  history := if it.config.capture then rs.toArray else #[]
  session := .notStarted

variable {source : String} {p : Program} {rs : List Record} {m : Machine}

/-- A path within the ceiling is the beginning of an execution. -/
theorem execute_of_path (it : Interpreter) (hp : Program.parse source = .ok p)
    (hpath : Path p it.config.input (.fresh it.config.memorySize) rs m)
    (hle : m.iterations ≤ it.config.maxIterations) :
    it.execute source =
      (fun r => (conclude it.config r, ⟨it.config, r.machine, r.history, .notStarted⟩))
        (Machine.run p it.config.input it.config.capture
          (it.config.maxIterations - m.iterations) m
          (if it.config.capture then rs.toArray else #[])) := by
  have hcount := hpath.iterations_of_fresh
  have hrun := run_of_path it.config.capture hpath
    (it.config.maxIterations - m.iterations) #[]
  rw [show rs.length + (it.config.maxIterations - m.iterations) = it.config.maxIterations by
    omega, Array.empty_append] at hrun
  simp only [execute, hp, hrun]

/-- A path within the ceiling to the end of the program is a successful execution. -/
theorem execute_of_finished (it : Interpreter) (hp : Program.parse source = .ok p)
    (hpath : Path p it.config.input (.fresh it.config.memorySize) rs m)
    (hle : m.iterations ≤ it.config.maxIterations) (hend : p.size ≤ m.ip) :
    it.execute source =
      (.ok (completion it.config ⟨.finished, m, rs.toArray⟩), it.settled rs m) := by
  rw [execute_of_path it hp hpath hle]
  have hrun : ∀ left history, Machine.run p it.config.input it.config.capture left m history =
      ⟨.finished, m, history⟩ := by
    intro left history
    cases left with
    | zero => rw [Machine.run, if_pos hend]
    | succ left => rw [Machine.run, step_of_size_le _ hend]
  rw [hrun]
  cases hcapture : it.config.capture <;> simp [conclude, completion, settled, hcapture]

/-- A path to a refused instruction is a failed execution. -/
theorem execute_of_refused {f : Fault} (it : Interpreter) (hp : Program.parse source = .ok p)
    (hpath : Path p it.config.input (.fresh it.config.memorySize) rs m)
    (href : Refused p it.config.input it.config.maxIterations m f) :
    it.execute source = (.error (failure m f), it.settled rs m) := by
  rcases href with ⟨hlt, hs⟩ | ⟨hcount, hip, rfl⟩
  · rw [execute_of_path it hp hpath (by omega)]
    obtain ⟨left, hleft⟩ : ∃ left, it.config.maxIterations - m.iterations = left + 1 :=
      ⟨it.config.maxIterations - m.iterations - 1, by omega⟩
    rw [hleft, Machine.run, hs]
    rfl
  · rw [execute_of_path it hp hpath (by omega),
      show it.config.maxIterations - m.iterations = 0 by omega, Machine.run, if_neg (by omega)]
    rfl

/-- **An execution is a path and a reason to stop**: the program has ended, or an instruction is
refused. -/
theorem execute_cases (it : Interpreter) (hp : Program.parse source = .ok p) :
    ∃ rs m, Path p it.config.input (.fresh it.config.memorySize) rs m ∧
      m.iterations ≤ it.config.maxIterations ∧
      ((p.size ≤ m.ip ∧
          it.execute source =
            (.ok (completion it.config ⟨.finished, m, rs.toArray⟩), it.settled rs m)) ∨
        ∃ f, Refused p it.config.input it.config.maxIterations m f ∧
          it.execute source = (.error (failure m f), it.settled rs m)) := by
  obtain ⟨rs, m, hpath, hle, hend | ⟨f, href⟩⟩ :=
    exists_path p it.config.input (m := .fresh it.config.memorySize) (Nat.zero_le _)
  · exact ⟨rs, m, hpath, hle, Or.inl ⟨hend, execute_of_finished it hp hpath hle hend⟩⟩
  · exact ⟨rs, m, hpath, hle, Or.inr ⟨f, href, execute_of_refused it hp hpath href⟩⟩

/-- A success comes from a path to the end of the program. -/
theorem exists_path_of_execute_ok {c : Completion} (it : Interpreter)
    (h : (it.execute source).1 = .ok c) :
    ∃ p rs m, Program.parse source = .ok p ∧
      Path p it.config.input (.fresh it.config.memorySize) rs m ∧
      m.iterations ≤ it.config.maxIterations ∧ p.size ≤ m.ip ∧
      c = completion it.config ⟨.finished, m, rs.toArray⟩ ∧
      (it.execute source).2 = it.settled rs m := by
  cases hp : Program.parse source with
  | error f =>
    rw [execute_of_parse_error it hp] at h
    contradiction
  | ok p =>
    obtain ⟨rs, m, hpath, hle, ⟨hend, hexecute⟩ | ⟨f, _, hexecute⟩⟩ := execute_cases it hp
    · rw [hexecute] at h ⊢
      cases h
      exact ⟨p, rs, m, rfl, hpath, hle, hend, rfl, rfl⟩
    · rw [hexecute] at h
      contradiction

/-- A failure comes from a source that does not parse or from a path to a refused instruction. -/
theorem exists_path_of_execute_error {e : Failure} (it : Interpreter)
    (h : (it.execute source).1 = .error e) :
    (∃ f, Program.parse source = .error f ∧ e = failure it.reset.machine f ∧
      (it.execute source).2 = it.reset) ∨
    ∃ p rs m f, Program.parse source = .ok p ∧
      Path p it.config.input (.fresh it.config.memorySize) rs m ∧
      Refused p it.config.input it.config.maxIterations m f ∧
      e = failure m f ∧ (it.execute source).2 = it.settled rs m := by
  cases hp : Program.parse source with
  | error f =>
    rw [execute_of_parse_error it hp] at h ⊢
    cases h
    exact Or.inl ⟨f, rfl, rfl, rfl⟩
  | ok p =>
    obtain ⟨rs, m, hpath, _, ⟨_, hexecute⟩ | ⟨f, href, hexecute⟩⟩ := execute_cases it hp
    · rw [hexecute] at h
      contradiction
    · rw [hexecute] at h ⊢
      cases h
      exact Or.inr ⟨p, rs, m, f, rfl, hpath, href, rfl, rfl⟩

/-- The ceiling has not stopped the execution. -/
def WithinCeiling (x : Execution) : Prop := ∀ e limit, x = .error e → e.fault ≠ .ceiling limit

/-- The interpreter under another ceiling. -/
def withCeiling (it : Interpreter) (limit : Nat) : Interpreter :=
  { it with config := { it.config with maxIterations := limit } }

/-- An execution that the ceiling has not stopped comes to the same under a higher one, and leaves
the same. -/
theorem execute_raise (it : Interpreter) {limit : Nat} (hle : it.config.maxIterations ≤ limit)
    (hwithin : WithinCeiling (it.execute source).1) :
    (it.withCeiling limit).execute source =
      ((it.execute source).1, (it.execute source).2.withCeiling limit) := by
  cases hp : Program.parse source with
  | error f =>
    rw [execute_of_parse_error _ hp, execute_of_parse_error _ hp]
    rfl
  | ok p =>
    obtain ⟨rs, m, hpath, hm, hcases⟩ := execute_cases it hp
    rcases hcases with ⟨hend, hexecute⟩ | ⟨f, ⟨hlt, hstep⟩ | ⟨_, _, rfl⟩, hexecute⟩
    · rw [hexecute, execute_of_finished (it.withCeiling limit) hp hpath (Nat.le_trans hm hle) hend]
      rfl
    · rw [hexecute, execute_of_refused (it.withCeiling limit) hp hpath
        (Or.inl ⟨Nat.lt_of_lt_of_le hlt hle, hstep⟩)]
      rfl
    · exact absurd rfl (hwithin _ _ (congrArg Prod.fst hexecute))

/-- Everything a run has written. -/
def written : Execution → Array UInt8
  | .ok c => c.output
  | .error e => e.output

/-- The number of instructions a run has executed. -/
def taken : Execution → Nat
  | .ok c => c.iterations
  | .error e => e.iterations

/-- What an execution reports is what its machine has written and counted. -/
theorem reported_execute (it : Interpreter) (source : String) :
    (it.execute source).2.machine.output = written (it.execute source).1 ∧
      (it.execute source).2.machine.iterations = taken (it.execute source).1 := by
  cases hx : (it.execute source).1 with
  | ok c =>
    obtain ⟨p, rs, m, _, _, _, _, rfl, hleft⟩ := exists_path_of_execute_ok it hx
    rw [hleft]
    exact ⟨rfl, rfl⟩
  | error e =>
    rcases exists_path_of_execute_error it hx with
      ⟨f, _, rfl, hleft⟩ | ⟨p, rs, m, f, _, _, _, rfl, hleft⟩
    · rw [hleft]
      exact ⟨rfl, rfl⟩
    · rw [hleft]
      exact ⟨rfl, rfl⟩

/-- What a run has written is what its machine has written. -/
theorem output_execute (it : Interpreter) (source : String) :
    (it.execute source).2.machine.output = written (it.execute source).1 :=
  (reported_execute it source).1

/-- An execution goes on behind any path within the ceiling, to the end of a longer one. -/
theorem exists_settled_of_path (it : Interpreter) (hp : Program.parse source = .ok p)
    (hpath : Path p it.config.input (.fresh it.config.memorySize) rs m)
    (hle : m.iterations ≤ it.config.maxIterations) :
    ∃ rs' m', Path p it.config.input m rs' m' ∧
      (it.execute source).2 = it.settled (rs ++ rs') m' := by
  obtain ⟨rs', m', hrest, hle', hend | ⟨f, href⟩⟩ := exists_path p it.config.input hle
  · refine ⟨rs', m', hrest, ?_⟩
    rw [execute_of_finished it hp (hpath.append hrest) hle' hend]
  · refine ⟨rs', m', hrest, ?_⟩
    rw [execute_of_refused it hp (hpath.append hrest) href]

/-- **A path is the beginning of an execution**: what is written, recorded and counted at its end is
where the execution goes on. -/
theorem prefix_of_path (it : Interpreter) (hp : Program.parse source = .ok p)
    (hpath : Path p it.config.input (.fresh it.config.memorySize) rs m)
    (hle : m.iterations ≤ it.config.maxIterations) :
    m.output.toList <+: (written (it.execute source).1).toList ∧
      (it.settled rs m).history.toList <+: (it.execute source).2.history.toList ∧
      m.iterations ≤ taken (it.execute source).1 := by
  obtain ⟨rs', m', hrest, hleft⟩ := exists_settled_of_path it hp hpath hle
  obtain ⟨hwritten, htaken⟩ := reported_execute it source
  rw [← hwritten, ← htaken, hleft]
  refine ⟨⟨printed rs', hrest.output_eq.symm⟩, ?_, ?_⟩
  · simp only [settled]
    split
    · exact List.prefix_append rs rs'
    · exact List.prefix_rfl
  · exact hrest.iterations_eq ▸ Nat.le_add_right _ _

/-- No success takes more instructions than allowed. -/
theorem iterations_le_of_execute {c : Completion} (it : Interpreter)
    (h : (it.execute source).1 = .ok c) : c.iterations ≤ it.config.maxIterations := by
  obtain ⟨p, rs, m, _, _, hle, _, rfl, _⟩ := exists_path_of_execute_ok it h
  exact hle

end Interpreter

end TapeTutor
