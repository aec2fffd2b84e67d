import TapeTutor.Debugger
import TapeTutor.View.Animation
import TapeTutor.Proofs.Stepping

/-!
# The ceiling in three drivers

Three loops run a program under a ceiling: an execution, a silent animation, and a debugger told
to skip.  The last two are one and the same loop over `Interpreter.step`, `Interpreter.drive`; an
animation and a debugger only dress up what it comes to (`animateLoop_eq_drive`,
`skipLoop_eq_drive`).

That loop looks at the ceiling *before* it asks whether the program is over, and an execution
looks at it *after*.  So they differ on a program that is over exactly when the ceiling is
reached: the execution succeeds, and the loop reports the ceiling.  `Interpreter.underCeiling`
says what becomes of a result that way.  They differ nowhere else, and the machine they leave is
the same even there (`drive_reset`).
-/

namespace TapeTutor

namespace Interpreter

open Machine

/-! ## One loop -/

/-- Calls `step` until the program is over, a call fails or the ceiling is reached, at most
`fuel` times. -/
def drive (source : String) :
    (fuel : Nat) → Interpreter → Except Fault (Array UInt8) × Interpreter
  | 0, it => (.error (.ceiling it.config.maxIterations), it)
  | fuel + 1, it =>
      if it.config.maxIterations ≤ it.machine.iterations then
        (.error (.ceiling it.config.maxIterations), it)
      else
        match it.step source with
        | (.stepped _ _, it) => drive source fuel it
        | (.done output, it) => (.ok output, it)
        | (.failed fault, it) => (.error fault, it)

variable {source : String} {p : Program} {rs : List Record} {m : Machine}

theorem config_step (it : Interpreter) (source : String) :
    (it.step source).2.config = it.config := by
  have hrunning : ∀ (it : Interpreter) p, (it.stepRunning p).2.config = it.config := by
    rintro ⟨config, machine, history, session⟩ p
    simp only [stepRunning]
    split <;> rfl
  unfold step
  split
  · split
    · rfl
    · exact hrunning _ _
  · exact hrunning _ _
  · rfl

theorem drive_of_spent (it : Interpreter) (fuel : Nat)
    (h : it.config.maxIterations ≤ it.machine.iterations) :
    it.drive source fuel = (.error (.ceiling it.config.maxIterations), it) := by
  cases fuel with
  | zero => rfl
  | succ fuel => rw [drive, if_pos h]

theorem drive_of_lt (it : Interpreter) (fuel : Nat)
    (h : it.machine.iterations < it.config.maxIterations) :
    it.drive source (fuel + 1) =
      match it.step source with
      | (.stepped _ _, it) => it.drive source fuel
      | (.done output, it) => (.ok output, it)
      | (.failed fault, it) => (.error fault, it) := by
  rw [drive, if_neg (by omega)]

/-- The loop follows a path that stays within the ceiling. -/
theorem drive_of_path (it : Interpreter) (hs : it.session = .running p)
    (hpath : Path p it.config.input it.machine rs m)
    (hle : m.iterations ≤ it.config.maxIterations) (fuel : Nat) :
    it.drive source (rs.length + fuel) = { it with machine := m }.drive source fuel := by
  obtain ⟨config, machine, history, session⟩ := it
  dsimp only at hs hpath hle ⊢
  induction hpath with
  | nil m => rw [List.length_nil, Nat.zero_add]
  | @cons m₀ m₁ m₂ r rs hstep hrest ih =>
    have hcount := hrest.iterations_eq
    have hcount' := iterations_of_step_executed hstep
    rw [List.length_cons, show rs.length + 1 + fuel = (rs.length + fuel) + 1 by omega,
      drive_of_lt _ _ (by dsimp only; omega), step_of_running source hs,
      stepRunning_of_executed _ hstep]
    exact ih hle

/-- With an instruction to spare, the loop sees that the program is over. -/
theorem drive_of_finished (it : Interpreter) (hs : it.session = .running p)
    (hlt : it.machine.iterations < it.config.maxIterations) (hend : p.size ≤ it.machine.ip)
    (fuel : Nat) :
    it.drive source (fuel + 1) = (.ok it.machine.output, { it with session := .over }) := by
  rw [drive_of_lt it fuel hlt, step_of_running source hs, stepRunning_of_halted it hend]

theorem drive_of_faulted {f : Fault} (it : Interpreter) (hs : it.session = .running p)
    (hlt : it.machine.iterations < it.config.maxIterations)
    (hfault : it.machine.step p it.config.input = (.faulted f, it.machine)) (fuel : Nat) :
    it.drive source (fuel + 1) = (.error f, { it with session := .over }) := by
  rw [drive_of_lt it fuel hlt, step_of_running source hs, stepRunning_of_faulted it hfault]

/-- Whether the first call begins the session makes no difference to the loop either. -/
theorem drive_reset_eq_begun (it : Interpreter) (hp : Program.parse source = .ok p)
    (hpos : 0 < it.config.maxIterations) (fuel : Nat) :
    it.reset.drive source (fuel + 1) = (it.begun p).drive source (fuel + 1) := by
  have hfirst : it.reset.step source = (it.begun p).step source := step_afterSteps_reset it hp 0
  rw [drive_of_lt it.reset fuel hpos, drive_of_lt (it.begun p) fuel hpos, hfirst]

/-! ## The loop and an execution -/

/-- What a driver tells of a result: the output of a success, the cause of a failure. -/
def told : Execution → Except Fault (Array UInt8)
  | .ok c => .ok c.output
  | .error e => .error e.fault

/-- The execution succeeds, and with the last instruction it may execute. -/
def EndsAtCeiling (limit : Nat) (x : Execution) : Prop := ∃ c, x = .ok c ∧ c.iterations = limit

/-- A success that needs every allowed instruction counts as cut off. -/
def underCeiling (limit : Nat) : Execution → Execution
  | .ok c =>
      if c.iterations < limit then .ok c
      else .error { fault := .ceiling limit, output := c.output, iterations := c.iterations }
  | .error e => .error e

theorem underCeiling_of_lt {limit : Nat} {c : Completion} (h : c.iterations < limit) :
    underCeiling limit (.ok c) = .ok c :=
  if_pos h

theorem underCeiling_of_le {limit : Nat} {c : Completion} (h : limit ≤ c.iterations) :
    underCeiling limit (.ok c) =
      .error { fault := .ceiling limit, output := c.output, iterations := c.iterations } :=
  if_neg (Nat.not_lt.mpr h)

theorem written_underCeiling (limit : Nat) (x : Execution) :
    written (underCeiling limit x) = written x := by
  cases x with
  | error e => rfl
  | ok c =>
    simp only [underCeiling]
    split <;> rfl

/-- Short of the ceiling, nothing is cut off. -/
theorem underCeiling_execute_of_not (it : Interpreter) (source : String)
    (h : ¬ EndsAtCeiling it.config.maxIterations (it.execute source).1) :
    underCeiling it.config.maxIterations (it.execute source).1 = (it.execute source).1 := by
  cases hx : (it.execute source).1 with
  | error e => rfl
  | ok c =>
    have hle := iterations_le_of_execute it hx
    have hne : c.iterations ≠ it.config.maxIterations := fun heq => h ⟨c, hx, heq⟩
    exact underCeiling_of_lt (by omega)

/-- Whoever can tell a failure from a success notices that a run was cut off. -/
theorem shown_underCeiling_eq_iff {α : Type} (shown : Execution → α)
    (hne : ∀ c e, shown (.error e) ≠ shown (.ok c)) (it : Interpreter) (source : String) :
    shown (underCeiling it.config.maxIterations (it.execute source).1) =
        shown (it.execute source).1 ↔
      ¬ EndsAtCeiling it.config.maxIterations (it.execute source).1 := by
  refine ⟨?_, fun h => congrArg shown (underCeiling_execute_of_not it source h)⟩
  rintro hsame ⟨c, hc, hlimit⟩
  rw [hc, underCeiling_of_le (Nat.le_of_eq hlimit.symm)] at hsame
  exact hne _ _ hsame

/-- **The loop and an execution, from a fresh start.**  The loop comes to what the execution comes
to, unless that succeeds with the last allowed instruction; it always leaves the same machine. -/
theorem drive_reset (it : Interpreter) (source : String) (hpos : 1 ≤ it.config.maxIterations)
    {fuel : Nat} (hfuel : it.config.maxIterations ≤ fuel) :
    (it.reset.drive source fuel).1 =
        told (underCeiling it.config.maxIterations (it.execute source).1) ∧
      (it.reset.drive source fuel).2.machine = (it.execute source).2.machine := by
  obtain ⟨fuel, rfl⟩ : ∃ n, fuel = n + 1 := ⟨fuel - 1, by omega⟩
  cases hp : Program.parse source with
  | error f =>
    rw [execute_of_parse_error it hp, drive_of_lt it.reset fuel hpos,
      step_reset_of_parse_error it hp]
    exact ⟨rfl, rfl⟩
  | ok p =>
    obtain ⟨rs, m, hpath, hle, hcases⟩ := execute_cases it hp
    have hcount := hpath.iterations_of_fresh
    -- the loop walks to the end of the path and has `left` calls to go
    obtain ⟨left, hleft⟩ : ∃ left, fuel + 1 = rs.length + left := ⟨fuel + 1 - rs.length, by omega⟩
    have hspare : m.iterations < it.config.maxIterations → ∃ n, left = n + 1 :=
      fun hlt => ⟨left - 1, by omega⟩
    rw [drive_reset_eq_begun it hp hpos, hleft, drive_of_path (it.begun p) rfl hpath hle]
    rcases hcases with ⟨hend, hexecute⟩ | ⟨f, ⟨hlt, hfault⟩ | ⟨hlimit, _, rfl⟩, hexecute⟩
    · by_cases hlt : m.iterations < it.config.maxIterations
      · have hwhole : underCeiling it.config.maxIterations
            (.ok (completion it.config ⟨.finished, m, rs.toArray⟩)) = _ := underCeiling_of_lt hlt
        obtain ⟨n, rfl⟩ := hspare hlt
        rw [hexecute, hwhole, drive_of_finished { it.begun p with machine := m } rfl hlt hend]
        exact ⟨rfl, rfl⟩
      · have hspent := Nat.le_of_not_lt hlt
        have hcut : underCeiling it.config.maxIterations
            (.ok (completion it.config ⟨.finished, m, rs.toArray⟩)) = _ := underCeiling_of_le hspent
        rw [hexecute, hcut, drive_of_spent { it.begun p with machine := m } left hspent]
        exact ⟨rfl, rfl⟩
    · obtain ⟨n, rfl⟩ := hspare hlt
      rw [hexecute, drive_of_faulted { it.begun p with machine := m } rfl hlt hfault]
      exact ⟨rfl, rfl⟩
    · rw [hexecute,
        drive_of_spent { it.begun p with machine := m } left (Nat.le_of_eq hlimit.symm)]
      exact ⟨rfl, rfl⟩

end Interpreter

/-! ## Two drivers -/

namespace Viewer

open Interpreter

/-- An animation that draws nothing and is never asked to stop shows what the loop comes to. -/
theorem animateLoop_eq_drive (v : Viewer) (code : String) (fuel : Nat) (it : Interpreter)
    (drawn : List String) :
    v.animateLoop false code fuel none it drawn =
      match it.drive code fuel with
      | (.ok output, it') => ⟨.completed output, drawn.reverse, it'⟩
      | (.error fault, it') => ⟨.failed fault it'.machine.output, drawn.reverse, it'⟩ := by
  induction fuel generalizing it with
  | zero => rfl
  | succ fuel ih =>
    rw [animateLoop, drive, if_neg (by simp)]
    by_cases hspent : it.config.maxIterations ≤ it.machine.iterations
    · rw [if_pos hspent, if_pos hspent]
    · rw [if_neg hspent, if_neg hspent]
      cases hstep : it.step code with
      | mk outcome it' =>
        cases outcome with
        | stepped record output => exact ih it'
        | done output => rfl
        | failed fault => rfl

end Viewer

namespace Debugger

open Interpreter

/-! ### Turns of the debugger, by what the call comes to -/

variable {d : Debugger} {it : Interpreter}

theorem step_of_stepped {r : Record} {out : Array UInt8}
    (h : d.interpreter.step d.code = (.stepped r out, it)) :
    d.step = (.stepped r out, ⟨it, d.code, d.steps + 1⟩) := by
  obtain ⟨it₀, code, steps⟩ := d
  simp only [step, h]

theorem step_of_done {out : Array UInt8} (h : d.interpreter.step d.code = (.done out, it)) :
    d.step = (.done out, ⟨it, d.code, d.steps⟩) := by
  obtain ⟨it₀, code, steps⟩ := d
  simp only [step, h]

theorem step_of_failed {f : Fault} (h : d.interpreter.step d.code = (.failed f, it)) :
    d.step = (.failed f, ⟨it, d.code, d.steps⟩) := by
  obtain ⟨it₀, code, steps⟩ := d
  simp only [step, h]

theorem spent_eq_false
    (h : d.interpreter.machine.iterations < d.interpreter.config.maxIterations) :
    d.spent = false :=
  decide_eq_false (by omega)

theorem spent_eq_true
    (h : d.interpreter.config.maxIterations ≤ d.interpreter.machine.iterations) :
    d.spent = true :=
  decide_eq_true h

/-! ### Skipping -/

/-- How a debugging run ends when the loop comes to a result. -/
def endOf : Except Fault (Array UInt8) → DebugEnd
  | .ok output => .finished output
  | .error fault => .failed fault

/-- Skipping ends as the loop does. -/
theorem skipLoop_eq_drive (fuel : Nat) (d : Debugger) :
    (skipLoop fuel d).ending = some (endOf (d.interpreter.drive d.code fuel).1) ∧
      (skipLoop fuel d).debugger.interpreter = (d.interpreter.drive d.code fuel).2 := by
  induction fuel generalizing d with
  | zero => exact ⟨rfl, rfl⟩
  | succ fuel ih =>
    by_cases hlt : d.interpreter.machine.iterations < d.interpreter.config.maxIterations
    · rw [skipLoop, spent_eq_false hlt, if_neg (by simp), drive_of_lt d.interpreter fuel hlt]
      cases hstep : d.interpreter.step d.code with
      | mk outcome it =>
        cases outcome with
        | stepped record output =>
          rw [step_of_stepped hstep]
          exact ih ⟨it, d.code, d.steps + 1⟩
        | done output =>
          rw [step_of_done hstep]
          exact ⟨rfl, rfl⟩
        | failed fault =>
          rw [step_of_failed hstep]
          exact ⟨rfl, rfl⟩
    · have hspent := Nat.le_of_not_lt hlt
      rw [skipLoop, spent_eq_true hspent, if_pos rfl, drive_of_spent d.interpreter _ hspent]
      exact ⟨rfl, rfl⟩

/-- A turn that ends the run is the end of the conversation. -/
theorem converse_of_ending {t : Turn} {ending : DebugEnd} (h : t.ending = some ending)
    (said : String) (replies : List Reply) :
    converse said t replies = ⟨ending, said ++ t.text, t.debugger⟩ := by
  obtain ⟨text, _, debugger⟩ := t
  cases h
  exact converse_ended replies

/-- A run that is told to skip at its first prompt ends as the loop does, with one call more than
the ceiling allows. -/
theorem run_skip_eq_drive (it : Interpreter) (code : String) {line : String}
    (hline : Command.parse? line = some .skip) (hpos : 0 < it.config.maxIterations) :
    ((start it code).run [some line]).ending =
        endOf (it.reset.drive code (it.config.maxIterations + 1)).1 ∧
      ((start it code).run [some line]).debugger.interpreter =
        (it.reset.drive code (it.config.maxIterations + 1)).2 := by
  have hlt : (start it code).interpreter.machine.iterations <
      (start it code).interpreter.config.maxIterations := hpos
  have hconfig := config_step it.reset code
  rw [run, proceed, spent_eq_false hlt, if_neg (by simp), drive_of_lt it.reset _ hpos]
  cases hstep : it.reset.step code with
  | mk outcome it' =>
    rw [hstep] at hconfig
    cases outcome with
    | stepped record output =>
      -- the first instruction leads to the prompt, and the rest is skipped from there
      have hanswer : answer ⟨it', code, 1⟩ (some line) =
          skipLoop it.config.maxIterations ⟨it', code, 1⟩ := by
        simp only [answer, hline, skip]
        rw [show it'.config = it.config from hconfig]
      obtain ⟨hending, hleft⟩ := skipLoop_eq_drive it.config.maxIterations ⟨it', code, 1⟩
      rw [step_of_stepped (d := start it code) hstep]
      dsimp only [start]
      rw [converse_cons, hanswer, converse_of_ending hending]
      exact ⟨rfl, hleft⟩
    | done output =>
      rw [step_of_done (d := start it code) hstep]
      exact ⟨rfl, rfl⟩
    | failed fault =>
      rw [step_of_failed (d := start it code) hstep]
      exact ⟨rfl, rfl⟩

end Debugger

/-! ## The one place where they differ -/

open Interpreter

/-- How an animation of an execution with this result should end. -/
def AnimationEnd.ofExecution : Execution → AnimationEnd
  | .ok c => .completed c.output
  | .error e => .failed e.fault e.output

/-- How a debugging run of an execution with this result should end. -/
def DebugEnd.ofExecution : Execution → DebugEnd
  | .ok c => .finished c.output
  | .error e => .failed e.fault

/-- A silent animation shows the execution, cut off at its ceiling. -/
theorem Viewer.animate_reset (v : Viewer) (it : Interpreter) (source : String)
    (hpos : 1 ≤ it.config.maxIterations) :
    (v.animate false source none it.reset).ending =
        .ofExecution (underCeiling it.config.maxIterations (it.execute source).1) ∧
      (v.animate false source none it.reset).interpreter.machine =
        (it.execute source).2.machine := by
  have hdrive := drive_reset it source hpos (Nat.le_refl _)
  have houtput := output_execute it source
  rw [← written_underCeiling it.config.maxIterations, ← hdrive.2] at houtput
  rw [animate, animateLoop_eq_drive, config_reset]
  cases hloop : it.reset.drive source it.config.maxIterations with
  | mk result it' =>
    rw [hloop] at hdrive houtput
    obtain ⟨hresult, hmachine⟩ := hdrive
    cases hx : underCeiling it.config.maxIterations (it.execute source).1 with
    | ok c =>
      rw [hx] at hresult
      cases hresult
      exact ⟨rfl, hmachine⟩
    | error e =>
      rw [hx] at hresult houtput
      cases hresult
      exact ⟨congrArg (AnimationEnd.failed e.fault) houtput, hmachine⟩

/-- A debugger told to skip ends like the execution, cut off at its ceiling. -/
theorem Debugger.run_skip (it : Interpreter) (source : String)
    (hpos : 1 ≤ it.config.maxIterations) {line : String}
    (hline : Command.parse? line = some .skip) :
    ((start it source).run [some line]).ending =
        .ofExecution (underCeiling it.config.maxIterations (it.execute source).1) ∧
      ((start it source).run [some line]).debugger.interpreter.machine =
        (it.execute source).2.machine := by
  obtain ⟨hresult, hmachine⟩ := drive_reset it source hpos (Nat.le_succ _)
  obtain ⟨hending, hleft⟩ := run_skip_eq_drive it source hline hpos
  rw [hending, hleft, hresult]
  refine ⟨?_, hmachine⟩
  cases underCeiling it.config.maxIterations (it.execute source).1 with
  | ok c => rfl
  | error e => rfl

/-- **The drivers differ exactly at the ceiling.**  Take a new interpreter, a source, a silent
animation that nobody stops and a debugger that is told to skip.

* Both end as the execution does if and only if the execution does not succeed with the very last
  instruction it may execute.
* If it does, both report the ceiling, although nothing was left to execute.
* Whatever the end, all three leave the same machine. -/
theorem drivers_agree_iff {config : Config} {it : Interpreter}
    (hnew : Interpreter.new config = .ok it) (v : Viewer) (source : String) {line : String}
    (hline : Debugger.Command.parse? line = some .skip) :
    ((v.animate false source none it).ending = .ofExecution (it.execute source).1 ↔
      ¬ EndsAtCeiling config.maxIterations (it.execute source).1) ∧
    (((Debugger.start it source).run [some line]).ending = .ofExecution (it.execute source).1 ↔
      ¬ EndsAtCeiling config.maxIterations (it.execute source).1) ∧
    (∀ c, (it.execute source).1 = .ok c → c.iterations = config.maxIterations →
      (v.animate false source none it).ending =
          .failed (.ceiling config.maxIterations) c.output ∧
        ((Debugger.start it source).run [some line]).ending =
          .failed (.ceiling config.maxIterations)) ∧
    (v.animate false source none it).interpreter.machine = (it.execute source).2.machine ∧
    ((Debugger.start it source).run [some line]).debugger.interpreter.machine =
      (it.execute source).2.machine := by
  obtain ⟨hvalid, rfl⟩ := valid_of_new hnew
  obtain ⟨hanimate, hanimated⟩ := v.animate_reset (fresh config) source hvalid.2
  obtain ⟨hdebug, hdebugged⟩ := Debugger.run_skip (fresh config) source hvalid.2 hline
  -- a fresh start is its own reset
  rw [show (fresh config).reset = fresh config from rfl] at hanimate hanimated
  refine ⟨?_, ?_, ?_, hanimated, hdebugged⟩
  · rw [hanimate]
    exact shown_underCeiling_eq_iff AnimationEnd.ofExecution (fun _ _ => nofun) _ source
  · rw [hdebug]
    exact shown_underCeiling_eq_iff DebugEnd.ofExecution (fun _ _ => nofun) _ source
  · intro c hc hlimit
    have hcut : underCeiling (fresh config).config.maxIterations (.ok c) = _ :=
      underCeiling_of_le (Nat.le_of_eq hlimit.symm)
    rw [hanimate, hdebug, hc, hcut]
    exact ⟨rfl, rfl⟩

/-- With an instruction to spare, everybody sees the program end. -/
theorem drivers_agree_iff_spare :
    Interpreter.new { memorySize := 1, maxIterations := 3 } =
        .ok (fresh { memorySize := 1, maxIterations := 3 }) ∧
      Debugger.Command.parse? "s\n" = some .skip ∧
      (Viewer.animate {} false "+." none
        (fresh { memorySize := 1, maxIterations := 3 })).ending = .completed #[1] ∧
      ((Debugger.start (fresh { memorySize := 1, maxIterations := 3 }) "+.").run
        [some "s\n"]).ending = .finished #[1] := by
  have hnew : Interpreter.new { memorySize := 1, maxIterations := 3 } =
      .ok (fresh { memorySize := 1, maxIterations := 3 }) := rfl
  have hline : Debugger.Command.parse? "s\n" = some .skip := by decide +kernel
  have hshort : ¬ EndsAtCeiling 3
      ((fresh { memorySize := 1, maxIterations := 3 }).execute "+.").1 := by
    rintro ⟨c, hc, hlimit⟩
    cases hc
    contradiction
  obtain ⟨hanimate, hdebug, _⟩ := drivers_agree_iff hnew {} "+." hline
  exact ⟨hnew, hline, hanimate.mpr hshort, hdebug.mpr hshort⟩

/-- Without one, a program that ends is reported as cut off. -/
theorem drivers_differ_at_ceiling :
    ((fresh { memorySize := 1, maxIterations := 1 }).execute "+").1 = .ok ⟨#[], 1, none, none⟩ ∧
      (Viewer.animate {} false "+" none
        (fresh { memorySize := 1, maxIterations := 1 })).ending = .failed (.ceiling 1) #[] ∧
      ((Debugger.start (fresh { memorySize := 1, maxIterations := 1 }) "+").run
        [some "s"]).ending = .failed (.ceiling 1) := by
  refine ⟨rfl, rfl, ?_⟩
  decide +kernel

end TapeTutor
