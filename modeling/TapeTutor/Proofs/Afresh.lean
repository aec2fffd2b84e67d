import TapeTutor.Proofs.Reachable

/-!
# Animating an interpreter that has been used

An animation takes its interpreter as it is.  If a step session is on, it goes on with it; if none
is, the first call of `step` starts over, and one would expect nothing of the past to be seen.  But
the animation looks at the interpreter *before* that call: at the count of its instructions, and at
its output if it is asked to stop.  What it finds there is what the last execution has left.

* `Reachable.eq_execute` says what that can be: without a session, every interpreter is one that an
  execution leaves, whatever else has been done with it.
* `step_of_notStarted` says that the first call forgets everything.  So an animation that gets that
  far is the animation of a new interpreter (`Viewer.animate_of_idle`).
* `Viewer.animate_of_stopped` and `Viewer.animate_of_spent` are the two animations that do not get
  that far.  They hand out what is left.

So the past is forgotten if the last execution had an instruction to spare and the stop is not there
from the beginning, and only then.
-/

namespace TapeTutor

/-- Two animations that end alike, draw the same frames and leave the same machine. -/
structure Animation.Agrees (a b : Animation) : Prop where
  ending : a.ending = b.ending
  frames : a.frames = b.frames
  machine : a.interpreter.machine = b.interpreter.machine

namespace Interpreter

open Machine

variable {config : Config} {it : Interpreter} {p : Program}

/-! ## Interpreters without a session -/

/-- The first call of a session looks at nothing but the configuration. -/
theorem step_of_notStarted (hidle : it.session = .notStarted) (source : String) :
    it.step source = it.reset.step source := by
  simp only [step, hidle, reset_reset]
  rfl

/-- An interpreter of the configuration: if it has no session, an execution has left it. -/
structure Rested (config : Config) (it : Interpreter) : Prop where
  config_eq : it.config = config
  eq_execute : it.session = .notStarted → ∃ source, it = ((fresh config).execute source).2

/-- An execution that fails to parse leaves a new interpreter. -/
theorem rested_fresh : Rested config (fresh config) where
  config_eq := rfl
  eq_execute _ := ⟨"[", rfl⟩

theorem Rested.reset (h : Rested config it) : Rested config it.reset := by
  rw [Interpreter.reset, h.config_eq]
  exact rested_fresh

theorem Rested.execute (h : Rested config it) (source : String) :
    Rested config (it.execute source).2 := by
  have hforget : it.execute source = (fresh config).execute source := by
    rw [← h.config_eq]
    rfl
  refine ⟨?_, fun _ => ⟨source, congrArg Prod.snd hforget⟩⟩
  rw [hforget]
  unfold Interpreter.execute
  split <;> rfl

/-- A call leaves no interpreter without a session, unless it has started over. -/
theorem Rested.step (h : Rested config it) (source : String) :
    Rested config (it.step source).2 := by
  refine ⟨(config_step it source).trans h.config_eq, ?_⟩
  rcases call_cases it source with
    ⟨f, _, _, hstep⟩ | ⟨p, _, _, hstep⟩ | ⟨p, hs, hstep⟩ | ⟨hover, hstep⟩
  · rw [hstep]
    exact h.reset.eq_execute
  · rw [hstep]
    exact fun hidle => absurd hidle (session_stepRunning rfl)
  · rw [hstep]
    exact fun hidle => absurd hidle (session_stepRunning hs)
  · rw [hstep]
    exact h.eq_execute

theorem kept_rested : Kept (Rested config) fun _ => True where
  step _ source h := h.step source
  failed _ _ _ _ _ := trivial
  ceiling _ := trivial
  reset _ h := h.reset
  execute _ source h := h.execute source
  executed _ _ _ _ _ := trivial

/-- **Without a session, there is nothing but the last execution.** -/
theorem Reachable.eq_execute (h : Reachable config it) (hidle : it.session = .notStarted) :
    ∃ source, it = ((fresh config).execute source).2 :=
  (h.of_kept kept_rested rested_fresh).eq_execute hidle

/-- An execution of no instruction leaves the machine as it was. -/
theorem machine_execute_of_iterations_eq_zero (it : Interpreter) (source : String)
    (h : (it.execute source).2.machine.iterations = 0) :
    (it.execute source).2.machine = .fresh it.config.memorySize := by
  cases hp : Program.parse source with
  | error f =>
    rw [execute_of_parse_error it hp]
    rfl
  | ok p =>
    obtain ⟨rs, m, hpath, _, hcases⟩ := execute_cases it hp
    have hmachine : (it.execute source).2.machine = m := by
      rcases hcases with ⟨_, hexecute⟩ | ⟨f, _, hexecute⟩
      · rw [hexecute]
        rfl
      · rw [hexecute]
        rfl
    rw [hmachine, hpath.iterations_of_fresh] at h
    rw [List.eq_nil_of_length_eq_zero h] at hpath
    rw [hmachine]
    cases hpath
    rfl

end Interpreter

/-! ## Animations -/

namespace Viewer

open Interpreter

variable (v : Viewer) (draw : Bool) (code : String) {stop : Option Nat} {it : Interpreter}

/-- A stop that is there from the beginning is obeyed first. -/
theorem animateLoop_of_stopped (fuel : Nat) (it : Interpreter) (drawn : List String) :
    v.animateLoop draw code fuel (some 0) it drawn =
      ⟨.interrupted it.machine.output, drawn.reverse, it⟩ := by
  cases fuel with
  | zero => rfl
  | succ fuel => rw [animateLoop, if_pos rfl]

/-- Instructions that were used up before count against the ceiling. -/
theorem animateLoop_of_spent (fuel : Nat) (hstop : stop ≠ some 0)
    (hspent : it.config.maxIterations ≤ it.machine.iterations) (drawn : List String) :
    v.animateLoop draw code fuel stop it drawn =
      ⟨.failed (.ceiling it.config.maxIterations) it.machine.output, drawn.reverse, it⟩ := by
  cases fuel with
  | zero =>
    unfold animateLoop
    split
    · contradiction
    · rfl
  | succ fuel => rw [animateLoop, if_neg hstop, if_pos hspent]

theorem animate_of_stopped (it : Interpreter) :
    v.animate draw code (some 0) it = ⟨.interrupted it.machine.output, [], it⟩ :=
  v.animateLoop_of_stopped draw code _ it []

theorem animate_of_spent (hstop : stop ≠ some 0)
    (hspent : it.config.maxIterations ≤ it.machine.iterations) :
    v.animate draw code stop it =
      ⟨.failed (.ceiling it.config.maxIterations) it.machine.output, [], it⟩ :=
  v.animateLoop_of_spent draw code _ hstop hspent []

/-- An animation that gets as far as its first call forgets everything. -/
theorem animate_of_idle (hstop : stop ≠ some 0) (hidle : it.session = .notStarted)
    (hlt : it.machine.iterations < it.config.maxIterations) :
    v.animate draw code stop it = v.animate draw code stop it.reset := by
  obtain ⟨fuel, hfuel⟩ : ∃ n, it.config.maxIterations = n + 1 :=
    ⟨it.config.maxIterations - 1, by omega⟩
  have hspare : ¬ it.config.maxIterations ≤ it.machine.iterations := by omega
  have hspare' : ¬ it.reset.config.maxIterations ≤ it.reset.machine.iterations := by
    show ¬ it.config.maxIterations ≤ 0
    omega
  rw [animate, animate, config_reset, hfuel, animateLoop, animateLoop, if_neg hstop, if_neg hstop,
    if_neg hspare, if_neg hspare', step_of_notStarted hidle]

/-- The empty program is over at once. -/
theorem ending_animate_empty {config : Config} (hpos : 1 ≤ config.maxIterations) :
    (v.animate draw "" none (fresh config)).ending = .completed #[] := by
  obtain ⟨fuel, hfuel⟩ : ∃ n, config.maxIterations = n + 1 := ⟨config.maxIterations - 1, by omega⟩
  have hspare : ¬ (fresh config).config.maxIterations ≤ (fresh config).machine.iterations := by
    show ¬ config.maxIterations ≤ 0
    omega
  rw [animate, show (fresh config).config.maxIterations = fuel + 1 from hfuel, animateLoop,
    if_neg (by simp), if_neg hspare]
  rfl

/-- **When an animation forgets.**  Take any interpreter that can be reached and has no session.

* It is what the execution of some source has left.
* An animation of it is the animation of a new interpreter, with two exceptions: a stop that is
  there from the beginning hands out the old output, and a count that has reached the ceiling ends
  the animation at once, as failed and with the old output.
* So all animations that are not stopped from the beginning forget the past if and only if the last
  execution had an instruction to spare.
* All animations at all do so if and only if nothing has been executed. -/
theorem animate_forgets_iff {config : Config} (h : Reachable config it)
    (hidle : it.session = .notStarted) :
    (∃ source, it = ((fresh config).execute source).2) ∧
    (∀ (v : Viewer) draw code stop, v.animate draw code stop it =
      if stop = some 0 then ⟨.interrupted it.machine.output, [], it⟩
      else if it.machine.iterations < config.maxIterations then
        v.animate draw code stop (fresh config)
      else ⟨.failed (.ceiling config.maxIterations) it.machine.output, [], it⟩) ∧
    ((∀ (v : Viewer) draw code stop, stop ≠ some 0 →
        (v.animate draw code stop it).Agrees (v.animate draw code stop (fresh config))) ↔
      it.machine.iterations < config.maxIterations) ∧
    ((∀ (v : Viewer) draw code stop,
        (v.animate draw code stop it).Agrees (v.animate draw code stop (fresh config))) ↔
      it.machine.iterations = 0) := by
  have hpos := h.valid.2
  have hconfig := h.sound.config_eq
  have hagrees : it.machine.iterations < config.maxIterations →
      ∀ (v : Viewer) draw code stop, stop ≠ some 0 →
        v.animate draw code stop it = v.animate draw code stop (fresh config) := by
    intro hlt v draw code stop hstop
    rw [v.animate_of_idle draw code hstop hidle (hconfig ▸ hlt), reset, hconfig]
  have hspent : ¬ it.machine.iterations < config.maxIterations →
      ∀ (v : Viewer) draw code stop, stop ≠ some 0 → v.animate draw code stop it =
        ⟨.failed (.ceiling config.maxIterations) it.machine.output, [], it⟩ := by
    intro hge v draw code stop hstop
    rw [v.animate_of_spent draw code hstop (by rw [hconfig]; omega), hconfig]
  refine ⟨h.eq_execute hidle, ?_, ⟨?_, ?_⟩, ⟨?_, ?_⟩⟩
  · intro v draw code stop
    split
    · next hstop => rw [hstop, animate_of_stopped]
    · next hstop =>
      split
      · next hlt => exact hagrees hlt v draw code stop hstop
      · next hge => exact hspent hge v draw code stop hstop
  · intro hall
    by_contra hge
    -- the empty program ends well, unless the ceiling is taken for reached
    have hending := (hall {} false "" none (by simp)).ending
    rw [hspent hge {} false "" none (by simp), ending_animate_empty {} false hpos] at hending
    contradiction
  · intro hlt v draw code stop hstop
    rw [hagrees hlt v draw code stop hstop]
    exact ⟨rfl, rfl, rfl⟩
  · intro hall
    have hmachine := (hall {} false "" (some 0)).machine
    rw [animate_of_stopped, animate_of_stopped] at hmachine
    exact congrArg Machine.iterations hmachine
  · intro hzero v draw code stop
    by_cases hstop : stop = some 0
    · obtain ⟨source, rfl⟩ := h.eq_execute hidle
      have hmachine := machine_execute_of_iterations_eq_zero (fresh config) source hzero
      rw [hstop, animate_of_stopped, animate_of_stopped]
      refine ⟨?_, rfl, hmachine⟩
      rw [hmachine]
      rfl
    · rw [hagrees (by omega) v draw code stop hstop]
      exact ⟨rfl, rfl, rfl⟩

/-- With an instruction to spare, and a stop behind the first frame. -/
theorem animate_forgets_iff_spare :
    Reachable { memorySize := 1, maxIterations := 3 }
        ((fresh { memorySize := 1, maxIterations := 3 }).execute "+.").2 ∧
      (Viewer.animate {} true "-." (some 1)
        ((fresh { memorySize := 1, maxIterations := 3 }).execute "+.").2).Agrees
          (Viewer.animate {} true "-." (some 1)
            (fresh { memorySize := 1, maxIterations := 3 })) := by
  have hnew : Reachable { memorySize := 1, maxIterations := 3 }
      (fresh { memorySize := 1, maxIterations := 3 }) := .new rfl
  have h := hnew.next (.execute "+.")
  obtain ⟨_, _, hforgets, _⟩ := animate_forgets_iff h rfl
  exact ⟨h, hforgets.mpr (by decide) {} true "-." (some 1) (by simp)⟩

/-- Without one, an animation fails that has not executed anything; and a stop that is there from
the beginning hands out the output of another program. -/
theorem animate_remembers :
    Reachable { memorySize := 1, maxIterations := 2 }
        ((fresh { memorySize := 1, maxIterations := 2 }).execute "+.").2 ∧
      ((fresh { memorySize := 1, maxIterations := 2 }).execute "+.").2.session = .notStarted ∧
      (Viewer.animate {} false "+" none
        ((fresh { memorySize := 1, maxIterations := 2 }).execute "+.").2).ending =
          .failed (.ceiling 2) #[1] ∧
      (Viewer.animate {} false "+" none
        (fresh { memorySize := 1, maxIterations := 2 })).ending = .completed #[] ∧
      (Viewer.animate {} false "+" (some 0)
        ((fresh { memorySize := 1, maxIterations := 2 }).execute "+.").2).ending =
          .interrupted #[1] ∧
      (Viewer.animate {} false "+" (some 0)
        (fresh { memorySize := 1, maxIterations := 2 })).ending = .interrupted #[] := by
  have hnew : Reachable { memorySize := 1, maxIterations := 2 }
      (fresh { memorySize := 1, maxIterations := 2 }) := .new rfl
  exact ⟨hnew.next (.execute "+."), rfl, rfl, rfl, rfl, rfl⟩

end Viewer

end TapeTutor
