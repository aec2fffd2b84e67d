import TapeTutor.Proofs.Path

/-!
# Stepping is executing, one call at a time

`Interpreter.step` executes one instruction a call and keeps its place in a session;
`Interpreter.execute` runs in one go, under a ceiling.  Both walk along the same path of the
machine, so their results can be compared call by call.

The first call of a session starts it.  Apart from that a session does nothing but step the
machine, so an interpreter whose session has just begun (`Interpreter.begun`) and one that is
about to begin behave alike (`step_afterSteps_reset`).  Along a path, `k` calls execute the first
`k` instructions (`afterSteps_of_path`); what the next call comes to is what the machine does at
the end of the path.

The ceiling is no part of a session.  Where an execution stops at it, a session goes on: its next
call executes one more instruction or fails, but the program is not over.
-/

namespace TapeTutor

/-! ## Faults and their families -/

namespace Program

theorem category_of_run_error {s : Scan} {position : Nat} {cs : List Instruction} {f : Fault}
    (h : s.run position cs = .error f) : f.category = .syntactic := by
  induction cs generalizing s position with
  | nil => contradiction
  | cons i rest ih =>
    rw [Scan.run] at h
    cases hv : s.visit i position with
    | ok t =>
      rw [hv] at h
      exact ih h
    | error g =>
      rw [hv] at h
      cases h
      cases i with
      | loopClose =>
        rw [Scan.visit] at hv
        split at hv
        · cases hv
          rfl
        · contradiction
      | _ => contradiction

/-- A source fails to parse for its syntax only. -/
theorem category_of_parse_error {source : String} {f : Fault} (h : parse source = .error f) :
    f.category = .syntactic := by
  unfold parse ofInstructions at h
  split at h
  · next hrun =>
    cases h
    exact category_of_run_error hrun
  · split at h
    · cases h
      rfl
    · contradiction

end Program

namespace Machine

/-- An instruction fails at the bounds of the tape, or for a jump that leads nowhere. -/
theorem category_of_step_faulted {p : Program} {input : Array UInt8} {m m' : Machine} {f : Fault}
    (h : m.step p input = (.faulted f, m')) : f.category = .bounds ∨ f.category = .inner := by
  obtain ⟨i, _, hf⟩ := fault?_of_step_faulted h
  rcases fault?_cases hf with ⟨_, rfl, _⟩ | ⟨_, rfl, _⟩ | rfl
  · exact Or.inl rfl
  · exact Or.inl rfl
  · exact Or.inr rfl

end Machine

namespace Interpreter

open Machine

variable {source : String} {p : Program} {it : Interpreter} {rs : List Record} {m : Machine}

/-! ## One call -/

theorem step_of_running (source : String) (h : it.session = .running p) :
    it.step source = it.stepRunning p := by
  simp only [step, h]

theorem stepRunning_of_executed (it : Interpreter) {r : Record}
    (h : it.machine.step p it.config.input = (.executed r, m)) :
    it.stepRunning p = (.stepped r it.machine.output, { it with machine := m }) := by
  obtain ⟨config, machine, history, session⟩ := it
  simp only [stepRunning, h]

theorem stepRunning_of_halted (it : Interpreter) (h : p.size ≤ it.machine.ip) :
    it.stepRunning p = (.done it.machine.output, { it with session := .over }) := by
  obtain ⟨config, machine, history, session⟩ := it
  simp only [stepRunning, step_of_size_le config.input h]

theorem stepRunning_of_faulted (it : Interpreter) {f : Fault}
    (h : it.machine.step p it.config.input = (.faulted f, it.machine)) :
    it.stepRunning p = (.failed f, { it with session := .over }) := by
  obtain ⟨config, machine, history, session⟩ := it
  simp only [stepRunning, h]

/-- The first call on a source that does not parse leaves a fresh start behind. -/
theorem step_reset_of_parse_error {f : Fault} (it : Interpreter)
    (hp : Program.parse source = .error f) : it.reset.step source = (.failed f, it.reset) := by
  simp only [step, reset, fresh, hp]

/-! ## Many calls -/

/-- The interpreter after `count` calls with the same source. -/
def afterSteps (source : String) : (count : Nat) → Interpreter → Interpreter
  | 0, it => it
  | count + 1, it => afterSteps source count (it.step source).2

/-- What a call comes to that follows `count` calls with the same source. -/
def outcomeAfter (source : String) (count : Nat) (it : Interpreter) : Outcome :=
  ((it.afterSteps source count).step source).1

theorem afterSteps_succ (source : String) (count : Nat) (it : Interpreter) :
    it.afterSteps source (count + 1) = ((it.afterSteps source count).step source).2 := by
  induction count generalizing it with
  | zero => rfl
  | succ count ih => exact ih (it.step source).2

theorem afterSteps_add (source : String) (n k : Nat) (it : Interpreter) :
    it.afterSteps source (n + k) = (it.afterSteps source n).afterSteps source k := by
  induction k with
  | zero => rfl
  | succ k ih => rw [← Nat.add_assoc, afterSteps_succ, afterSteps_succ, ih]

/-- A fresh start whose session has begun. -/
def begun (it : Interpreter) (p : Program) : Interpreter := { it.reset with session := .running p }

/-- It makes no difference whether the first call begins the session or finds it begun. -/
theorem step_afterSteps_reset (it : Interpreter) (hp : Program.parse source = .ok p)
    (count : Nat) :
    (it.reset.afterSteps source count).step source =
      ((it.begun p).afterSteps source count).step source := by
  have hfirst : it.reset.step source = (it.begun p).step source := by
    rw [step_of_running source (rfl : (it.begun p).session = .running p)]
    simp only [step, reset, fresh, hp]
    rfl
  cases count with
  | zero => exact hfirst
  | succ count =>
    rw [afterSteps, afterSteps, hfirst]

/-- Along a path, every call executes one instruction. -/
theorem afterSteps_of_path (it : Interpreter) (source : String) (hs : it.session = .running p)
    (hpath : Path p it.config.input it.machine rs m) :
    it.afterSteps source rs.length = { it with machine := m } := by
  obtain ⟨config, machine, history, session⟩ := it
  dsimp only at hs hpath
  induction hpath with
  | nil m => rfl
  | cons hstep _ ih =>
    rw [List.length_cons, afterSteps, step_of_running source hs, stepRunning_of_executed _ hstep]
    exact ih

/-- After the path of an execution, the next call is the machine's next step at its end. -/
theorem step_afterSteps_of_path (it : Interpreter) (hp : Program.parse source = .ok p)
    (hpath : Path p it.config.input (.fresh it.config.memorySize) rs m) :
    (it.reset.afterSteps source rs.length).step source =
      { it.begun p with machine := m }.stepRunning p := by
  rw [step_afterSteps_reset it hp, afterSteps_of_path _ source rfl hpath]
  exact step_of_running source rfl

/-- After the path of an execution, the machine of the session is at its end. -/
theorem machine_afterSteps_of_path (it : Interpreter) (hp : Program.parse source = .ok p)
    (hpath : Path p it.config.input (.fresh it.config.memorySize) rs m) :
    (it.reset.afterSteps source rs.length).machine = m := by
  have hbegun := afterSteps_of_path (it.begun p) source rfl hpath
  cases rs with
  | nil =>
    cases hpath
    rfl
  | cons r rs =>
    -- the first call has begun the session
    rw [List.length_cons, afterSteps_succ, step_afterSteps_reset it hp, ← afterSteps_succ,
      ← List.length_cons (a := r), hbegun]

/-! ## The calls of a session -/

/-- The calls of a session show the records, each with the output written before it. -/
def StepsThrough (it : Interpreter) (source : String) (history : Array Record) : Prop :=
  ∀ k r, history[k]? = some r →
    it.reset.outcomeAfter source k = .stepped r (printed (history.toList.take k)).toArray

theorem stepsThrough_of_path (it : Interpreter) (hp : Program.parse source = .ok p)
    (hpath : Path p it.config.input (.fresh it.config.memorySize) rs m) :
    it.StepsThrough source rs.toArray := by
  intro k r hk
  rw [List.getElem?_toArray] at hk
  obtain ⟨hlt, _⟩ := List.getElem?_eq_some_iff.mp hk
  obtain ⟨a, b, hbefore, hstep⟩ := hpath.exists_step hk
  have hcall := step_afterSteps_of_path it hp hbefore
  rw [List.length_take_of_le (Nat.le_of_lt hlt),
    stepRunning_of_executed { it.begun p with machine := a } hstep] at hcall
  have houtput : a.output = (printed (rs.take k)).toArray := by
    apply Array.toList_inj.mp
    rw [hbefore.output_eq]
    rfl
  rw [outcomeAfter, hcall]
  show Outcome.stepped r a.output = _
  rw [houtput]

/-- The machine is the one that `count` calls of `step` leave, all of which execute an
instruction. -/
structure Stands (it : Interpreter) (source : String) (count : Nat) (m : Machine) : Prop where
  stepped : ∀ k < count, ∃ r output, it.reset.outcomeAfter source k = .stepped r output
  machine_eq : (it.reset.afterSteps source count).machine = m

theorem stands_of_path (it : Interpreter) (hp : Program.parse source = .ok p)
    (hpath : Path p it.config.input (.fresh it.config.memorySize) rs m) :
    it.Stands source m.iterations m := by
  rw [hpath.iterations_of_fresh]
  refine ⟨fun k hk => ?_, machine_afterSteps_of_path it hp hpath⟩
  have hrecord : rs.toArray[k]? = some rs[k] := by
    rw [List.getElem?_toArray, List.getElem?_eq_getElem hk]
  exact ⟨_, _, stepsThrough_of_path it hp hpath k _ hrecord⟩

theorem outcomeAfter_of_finished (it : Interpreter) (hp : Program.parse source = .ok p)
    (hpath : Path p it.config.input (.fresh it.config.memorySize) rs m) (hend : p.size ≤ m.ip) :
    it.reset.outcomeAfter source rs.length = .done m.output ∧
      (it.reset.afterSteps source (rs.length + 1)).machine = m := by
  have hcall := step_afterSteps_of_path it hp hpath
  rw [stepRunning_of_halted { it.begun p with machine := m } hend] at hcall
  rw [outcomeAfter, afterSteps_succ, hcall]
  exact ⟨rfl, rfl⟩

theorem outcomeAfter_of_faulted {f : Fault} (it : Interpreter)
    (hp : Program.parse source = .ok p)
    (hpath : Path p it.config.input (.fresh it.config.memorySize) rs m)
    (hstep : m.step p it.config.input = (.faulted f, m)) :
    it.reset.outcomeAfter source rs.length = .failed f ∧
      (it.reset.afterSteps source (rs.length + 1)).machine = m := by
  have hcall := step_afterSteps_of_path it hp hpath
  rw [stepRunning_of_faulted { it.begun p with machine := m } hstep] at hcall
  rw [outcomeAfter, afterSteps_succ, hcall]
  exact ⟨rfl, rfl⟩

/-- As long as there are instructions left, a session is not over. -/
theorem outcomeAfter_ne_done (it : Interpreter) (hp : Program.parse source = .ok p)
    (hpath : Path p it.config.input (.fresh it.config.memorySize) rs m) (hip : m.ip < p.size)
    (out : Array UInt8) : it.reset.outcomeAfter source rs.length ≠ .done out := by
  intro hdone
  have hcall := step_afterSteps_of_path it hp hpath
  rw [outcomeAfter, hcall] at hdone
  rcases step_cases p it.config.input m with ⟨hend, _⟩ | ⟨_, f, _, _, hs⟩ | ⟨i, _, _, hs⟩
  · omega
  · rw [stepRunning_of_faulted { it.begun p with machine := m } hs] at hdone
    contradiction
  · rw [stepRunning_of_executed { it.begun p with machine := m } hs] at hdone
    contradiction

/-! ## Every kind of ending -/

/-- The records that an execution keeps are those of its path. -/
theorem history_settled (it : Interpreter) (hcapture : it.config.capture = true)
    (rs : List Record) (m : Machine) : (it.settled rs m).history = rs.toArray :=
  if_pos hcapture

/-- A fault at the bounds of the tape comes from an instruction that was still allowed. -/
theorem exists_path_of_execute_bounds {e : Failure} (it : Interpreter)
    (h : (it.execute source).1 = .error e) (hbounds : e.fault.category = .bounds) :
    ∃ p rs m f, Program.parse source = .ok p ∧
      Path p it.config.input (.fresh it.config.memorySize) rs m ∧
      m.iterations < it.config.maxIterations ∧ m.step p it.config.input = (.faulted f, m) ∧
      e = failure m f ∧ (it.execute source).2 = it.settled rs m := by
  rcases exists_path_of_execute_error it h with
    ⟨f, hp, rfl, _⟩ | ⟨p, rs, m, f, hp, hpath, ⟨hlt, hfault⟩ | ⟨_, _, rfl⟩, rfl, hleft⟩
  · have hsyntactic := Program.category_of_parse_error hp
    rw [show f.category = .bounds from hbounds] at hsyntactic
    contradiction
  · exact ⟨p, rs, m, f, hp, hpath, hlt, hfault, rfl, hleft⟩
  · contradiction

/-- An execution that the ceiling has stopped comes from a path that is as long as the ceiling
allows, with instructions left. -/
theorem exists_path_of_execute_ceiling {e : Failure} {limit : Nat} (it : Interpreter)
    (h : (it.execute source).1 = .error e) (hceiling : e.fault = .ceiling limit) :
    ∃ p rs m, Program.parse source = .ok p ∧
      Path p it.config.input (.fresh it.config.memorySize) rs m ∧
      m.iterations = it.config.maxIterations ∧ m.ip < p.size ∧
      e = failure m (.ceiling it.config.maxIterations) ∧
      (it.execute source).2 = it.settled rs m := by
  rcases exists_path_of_execute_error it h with
    ⟨f, hp, rfl, _⟩ | ⟨p, rs, m, f, hp, hpath, ⟨_, hfault⟩ | ⟨hlimit, hip, rfl⟩, rfl, hleft⟩
  · have hsyntactic := Program.category_of_parse_error hp
    rw [show f = .ceiling limit from hceiling] at hsyntactic
    contradiction
  · have hfamily := category_of_step_faulted hfault
    rw [show f = .ceiling limit from hceiling] at hfamily
    simp [Fault.category] at hfamily
  · exact ⟨p, rs, m, hp, hpath, hlimit, hip, rfl, hleft⟩

theorem steps_of_execute_syntactic {e : Failure} (it : Interpreter)
    (h : (it.execute source).1 = .error e) (hsyntactic : e.fault.category = .syntactic) :
    it.reset.outcomeAfter source 0 = .failed e.fault ∧
      (it.reset.afterSteps source 1).machine = it.reset.machine ∧
      (it.execute source).2.machine = it.reset.machine := by
  rcases exists_path_of_execute_error it h with
    ⟨f, hp, rfl, hleft⟩ | ⟨p, rs, m, f, _, _, ⟨_, hfault⟩ | ⟨_, _, rfl⟩, rfl, _⟩
  · have hstep := step_reset_of_parse_error it hp
    refine ⟨congrArg Prod.fst hstep, congrArg (fun r => r.2.machine) hstep, ?_⟩
    rw [hleft]
  · -- a program that runs has no syntax fault left
    have hfamily := category_of_step_faulted hfault
    rw [show f.category = .syntactic from hsyntactic] at hfamily
    simp at hfamily
  · contradiction

theorem steps_of_execute_ok {c : Completion} (it : Interpreter)
    (hcapture : it.config.capture = true) (h : (it.execute source).1 = .ok c) :
    ∃ history, c.history = some history ∧ history.size = c.iterations ∧
      it.StepsThrough source history ∧
      it.reset.outcomeAfter source c.iterations = .done c.output ∧
      (it.reset.afterSteps source (c.iterations + 1)).machine = (it.execute source).2.machine := by
  obtain ⟨p, rs, m, hp, hpath, _, hend, rfl, hleft⟩ := exists_path_of_execute_ok it h
  have hfinished := outcomeAfter_of_finished it hp hpath hend
  have hcount := hpath.iterations_of_fresh
  rw [← hcount] at hfinished
  rw [hleft]
  exact ⟨rs.toArray, if_pos hcapture, hcount.symm, stepsThrough_of_path it hp hpath, hfinished⟩

theorem steps_of_execute_bounds {e : Failure} (it : Interpreter)
    (hcapture : it.config.capture = true) (h : (it.execute source).1 = .error e)
    (hbounds : e.fault.category = .bounds) :
    (it.execute source).2.history.size = e.iterations ∧
      it.StepsThrough source (it.execute source).2.history ∧
      it.reset.outcomeAfter source e.iterations = .failed e.fault ∧
      (it.reset.afterSteps source (e.iterations + 1)).machine = (it.execute source).2.machine := by
  obtain ⟨p, rs, m, f, hp, hpath, _, hfault, rfl, hleft⟩ :=
    exists_path_of_execute_bounds it h hbounds
  have hfailed := outcomeAfter_of_faulted it hp hpath hfault
  have hcount := hpath.iterations_of_fresh
  rw [← hcount] at hfailed
  rw [hleft, history_settled it hcapture]
  exact ⟨hcount.symm, stepsThrough_of_path it hp hpath, hfailed⟩

theorem steps_of_execute_ceiling {e : Failure} {limit : Nat} (it : Interpreter)
    (hcapture : it.config.capture = true) (h : (it.execute source).1 = .error e)
    (hceiling : e.fault = .ceiling limit) :
    (it.execute source).2.history.size = limit ∧
      it.StepsThrough source (it.execute source).2.history ∧
      (it.reset.afterSteps source limit).machine = (it.execute source).2.machine ∧
      ∀ out, it.reset.outcomeAfter source limit ≠ .done out := by
  obtain ⟨p, rs, m, hp, hpath, hlimit, hip, rfl, hleft⟩ :=
    exists_path_of_execute_ceiling it h hceiling
  cases hceiling
  have hcount : rs.length = it.config.maxIterations := hpath.iterations_of_fresh.symm.trans hlimit
  have hmachine := machine_afterSteps_of_path it hp hpath
  have hmore := outcomeAfter_ne_done it hp hpath hip
  rw [hcount] at hmachine hmore
  rw [hleft, history_settled it hcapture]
  exact ⟨hcount, stepsThrough_of_path it hp hpath, hmachine, hmore⟩

/-- **Stepping and executing agree.**  Compare an execution that keeps its records with calls of
`step` from a fresh start.

* A syntax fault is what the first call fails with, and neither leaves anything behind.
* After a success, the calls show the records, each with the output before it; the next call says
  that the program is over, and the machine is the one the execution left.
* After a fault at the bounds of the tape, the calls show the records, and the next one fails
  with that fault and leaves that machine.
* At the ceiling, the calls show the records and leave the machine of the execution, but the
  program is not over. -/
theorem step_agrees_execute (it : Interpreter) (source : String)
    (hcapture : it.config.capture = true) :
    (∀ e, (it.execute source).1 = .error e → e.fault.category = .syntactic →
      it.reset.outcomeAfter source 0 = .failed e.fault ∧
        (it.reset.afterSteps source 1).machine = it.reset.machine ∧
        (it.execute source).2.machine = it.reset.machine) ∧
    (∀ c, (it.execute source).1 = .ok c →
      ∃ history, c.history = some history ∧ history.size = c.iterations ∧
        it.StepsThrough source history ∧
        it.reset.outcomeAfter source c.iterations = .done c.output ∧
        (it.reset.afterSteps source (c.iterations + 1)).machine =
          (it.execute source).2.machine) ∧
    (∀ e, (it.execute source).1 = .error e → e.fault.category = .bounds →
      (it.execute source).2.history.size = e.iterations ∧
        it.StepsThrough source (it.execute source).2.history ∧
        it.reset.outcomeAfter source e.iterations = .failed e.fault ∧
        (it.reset.afterSteps source (e.iterations + 1)).machine =
          (it.execute source).2.machine) ∧
    (∀ e limit, (it.execute source).1 = .error e → e.fault = .ceiling limit →
      (it.execute source).2.history.size = limit ∧
        it.StepsThrough source (it.execute source).2.history ∧
        (it.reset.afterSteps source limit).machine = (it.execute source).2.machine ∧
        ∀ out, it.reset.outcomeAfter source limit ≠ .done out) := by
  refine ⟨?_, ?_, ?_, ?_⟩
  · intro e h hsyntactic
    exact steps_of_execute_syntactic it h hsyntactic
  · intro c h
    exact steps_of_execute_ok it hcapture h
  · intro e h hbounds
    exact steps_of_execute_bounds it hcapture h hbounds
  · intro e limit h hceiling
    exact steps_of_execute_ceiling it hcapture h hceiling

/-- A program that ends, with a loop and some output. -/
theorem step_agrees_execute_ended :
    ∃ c history,
      ((fresh { memorySize := 2, maxIterations := 40, capture := true }).execute
        "++[>+.<-]").1 = .ok c ∧
      c.history = some history ∧ history.size = c.iterations ∧
      (fresh { memorySize := 2, maxIterations := 40, capture := true }).StepsThrough
        "++[>+.<-]" history := by
  obtain ⟨c, hc⟩ : ∃ c, ((fresh { memorySize := 2, maxIterations := 40, capture := true }).execute
      "++[>+.<-]").1 = .ok c := ⟨_, rfl⟩
  obtain ⟨history, hhistory, hsize, hthrough, _⟩ := (step_agrees_execute _ _ rfl).2.1 c hc
  exact ⟨c, history, hc, hhistory, hsize, hthrough⟩

end Interpreter

end TapeTutor
