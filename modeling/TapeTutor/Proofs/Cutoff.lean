import TapeTutor.Proofs.Stepping

/-!
# The ceiling cuts a run off and does nothing else

Take one source and two ceilings, one of them higher.  Both executions walk along the same path, for
a ceiling is no part of a path.  The lower one either is not felt or is where the execution stops.

* If it is not felt, the higher one is not felt either (`execute_raise`).  That a program ends on the
  last allowed instruction is no reason to stop it, and a program that fails has still had an
  instruction to spare (`exists_path_of_execute_bounds`).
* If it is felt, the machine stands at the end of a path of exactly that length
  (`exists_path_of_execute_ceiling`), and from there the execution under the higher ceiling goes on
  (`prefix_of_path`).
-/

namespace TapeTutor

namespace Interpreter

open Machine

variable {source : String}

/-- No execution takes more instructions than allowed, however it ends. -/
theorem taken_execute_le (it : Interpreter) (source : String) :
    taken (it.execute source).1 ≤ it.config.maxIterations := by
  cases hp : Program.parse source with
  | error f =>
    rw [execute_of_parse_error it hp]
    exact Nat.zero_le _
  | ok p =>
    obtain ⟨rs, m, _, hle, ⟨_, hexecute⟩ | ⟨f, _, hexecute⟩⟩ := execute_cases it hp
    · rw [hexecute]
      exact hle
    · rw [hexecute]
      exact hle

/-- **The ceiling cuts a run off and does nothing else.**  Compare an execution with the one of the
same source under a higher ceiling.

* It never reports more instructions than its own ceiling allows.
* If the ceiling has not stopped it, the other one has the same result and leaves the same
  interpreter, apart from the ceiling.
* A fault at the bounds of the tape comes before the ceiling is reached.
* If the ceiling has stopped it, then it has executed exactly that many instructions, and the machine
  is the one that as many calls of `step` leave, under either ceiling.  What it has written and
  recorded is the beginning of what the other one writes and records. -/
theorem execute_cut_off (it : Interpreter) (source : String) {limit : Nat}
    (hle : it.config.maxIterations ≤ limit) :
    taken (it.execute source).1 ≤ it.config.maxIterations ∧
    (WithinCeiling (it.execute source).1 →
      (it.withCeiling limit).execute source =
        ((it.execute source).1, (it.execute source).2.withCeiling limit)) ∧
    (∀ e, (it.execute source).1 = .error e → e.fault.category = .bounds →
      e.iterations < it.config.maxIterations) ∧
    ∀ e reached, (it.execute source).1 = .error e → e.fault = .ceiling reached →
      reached = it.config.maxIterations ∧ e.iterations = it.config.maxIterations ∧
      it.Stands source it.config.maxIterations (it.execute source).2.machine ∧
      (it.withCeiling limit).Stands source it.config.maxIterations
        (it.execute source).2.machine ∧
      e.output.toList <+: (written ((it.withCeiling limit).execute source).1).toList ∧
      (it.execute source).2.history.toList <+:
        ((it.withCeiling limit).execute source).2.history.toList := by
  refine ⟨taken_execute_le it source, execute_raise it hle, ?_, ?_⟩
  · intro e h hbounds
    obtain ⟨p, rs, m, f, _, _, hlt, _, rfl, _⟩ := exists_path_of_execute_bounds it h hbounds
    exact hlt
  · intro e reached h hceiling
    obtain ⟨p, rs, m, hp, hpath, hcount, _, rfl, hleft⟩ :=
      exists_path_of_execute_ceiling it h hceiling
    -- a path does not know of ceilings, so it is one of both interpreters
    have hstands := stands_of_path it hp hpath
    have hstands' := stands_of_path (it.withCeiling limit) hp hpath
    have hroom : m.iterations ≤ (it.withCeiling limit).config.maxIterations := by
      rw [hcount]
      exact hle
    obtain ⟨houtput, hhistory, _⟩ := prefix_of_path (it.withCeiling limit) hp hpath hroom
    rw [hcount] at hstands hstands'
    rw [hleft]
    cases hceiling
    exact ⟨rfl, hcount, hstands, hstands', houtput, hhistory⟩

/-- Cut off in the second round of a loop that never ends. -/
theorem execute_cut_off_loop :
    ((fresh { memorySize := 1, maxIterations := 5 }).execute "+[.+]").1 =
        .error ⟨.ceiling 5, #[1], 5⟩ ∧
      (fresh { memorySize := 1, maxIterations := 5 }).Stands "+[.+]" 5
        ((fresh { memorySize := 1, maxIterations := 5 }).execute "+[.+]").2.machine ∧
      [1] <+: (written (((fresh { memorySize := 1, maxIterations := 5 }).withCeiling 9).execute
        "+[.+]").1).toList := by
  have he : ((fresh { memorySize := 1, maxIterations := 5 }).execute "+[.+]").1 =
      .error ⟨.ceiling 5, #[1], 5⟩ := rfl
  obtain ⟨_, _, _, hcut⟩ :=
    execute_cut_off (fresh { memorySize := 1, maxIterations := 5 }) "+[.+]"
      (show 5 ≤ 9 by decide)
  obtain ⟨_, _, hstands, _, houtput, _⟩ := hcut _ 5 he rfl
  exact ⟨he, hstands, houtput⟩

end Interpreter

end TapeTutor
