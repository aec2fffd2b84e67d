import TapeTutor.CommandLine.Response
import TapeTutor.Proofs.Resumption
import TapeTutor.Proofs.RoundTrip

/-!
# What an exit code tells

A command that runs a program tells by its exit code how that went.  The contract is the same for
all of them (`ExitContract`): 2 if the settings cannot be used, and else 0 or 1, as the program has
done well or not.  What it means to do well depends on the command; `Judgement` lists the five
meanings there are, and `Context.Judges` says which command goes by which of them, and on which
program.  Commands that run nothing (lists, hints, the generator) and requests for something that is
not there have no judgement.

The commands come to their interpreter by three ways, and each way looks at the settings itself:

* `Context.withInterpreter` asks for a new interpreter, and gives up with 2 if there is none;
* `Context.withVerdict` gives up with 2 if two programs cannot be compared;
* `grade` gives settings that cannot be used as one more reason to turn a solution down, and
  `Context.gradeExercise` tells all reasons alike, by 1.

With settings that can be used, the exit code says how the program has done, for each way by a lemma
of its own (`Context.tells_perform`).  With others the ways differ
(`Context.exit_perform_of_not_valid`), and so the contract is kept by every command, except that
grading an exercise with settings that cannot be used breaks it (`exit_contract_iff`).
-/

namespace TapeTutor

/-- Settings that a program can be run with: there is a cell, and an instruction to execute. -/
def Settings.Usable (s : Settings) : Prop := s.memorySize ≠ 0 ∧ s.maxIterations ≠ 0
deriving Decidable

namespace CommandLine

open Interpreter

/-! ## Judgements -/

/-- What the exit code of a command tells about a program. -/
inductive Judgement where
  /-- Whether an execution succeeds. -/
  | execution (config : Config) (source : String)
  /-- Whether a debugging run comes to the end of the program, or the user leaves. -/
  | session (config : Config) (source : String) (replies : List Debugger.Reply)
  /-- Whether an animation comes to the end of the program. -/
  | animation (config : Config) (viewer : Viewer) (draw : Bool) (source : String)
  /-- Whether a solution passes the test cases. -/
  | grading (config : Config) (code : String) (tests : List TestCase)
  /-- Whether two programs match. -/
  | comparison (config : Config) (attempt reference : String)

namespace Judgement

/-- The configuration of the runs that decide. -/
def config : Judgement → Config
  | execution config _ => config
  | session config _ _ => config
  | animation config _ _ _ => config
  | grading config _ _ => config
  | comparison config _ _ => config

/-- The program has done well. -/
def Favourable : Judgement → Prop
  | execution config source => ∃ done, ((fresh config).execute source).1 = .ok done
  | session config source replies =>
      ((Debugger.start (fresh config) source).run replies).ending = .quit ∨
        ∃ output, ((Debugger.start (fresh config) source).run replies).ending = .finished output
  | animation config viewer draw source =>
      ∃ output, (viewer.animate draw source none (fresh config)).ending = .completed output
  | grading config code tests => grade code tests config = none
  | comparison config attempt reference =>
      ∃ verdict, Verdict.judge attempt reference config = .ok verdict ∧ verdict.isMatch = true

/-- Whether test cases decide. -/
def isGrading : Judgement → Bool
  | grading _ _ _ => true
  | _ => false

end Judgement

/-- The commands that run a program, and what their exit codes tell about it. -/
inductive Context.Judges (c : Context) (supplies : Supplies) : Command → Judgement → Prop
  /-- The file can be read. -/
  | run {file source : String} {input : Option String} {o : ReportOptions} :
      asText (supplies.file file) = .ok source →
      Judges c supplies (.run file input o) (.execution (c.runConfig input o) source)
  | exec {code : String} {input : Option String} {o : ReportOptions} :
      Judges c supplies (.exec code input o) (.execution (c.runConfig input o) code)
  /-- The example is known. -/
  | examples {name : String} {e : Example} {input : Option String} {visualize : Bool} :
      Catalog.example? name = some e →
      Judges c supplies (.examples (some name) input visualize)
        (.execution (c.config (some (input.getD e.sampleInput))) e.code)
  /-- The file can be read. -/
  | debug {file source : String} {input : Option String} :
      asText (supplies.file file) = .ok source →
      Judges c supplies (.debug file input)
        (.session (c.config input) source (Debugger.repliesOf supplies.stdin))
  | visualize {code : String} {input : Option String} {speed : Option Nat} :
      Judges c supplies (.visualize code input speed)
        (.animation (c.config input) c.viewer (0 < speed.getD c.settings.animationMs) code)
  /-- There is such an exercise, and a solution is given. -/
  | exercise {level : Level} {pick : Pick} {e : Exercise} {o : TaskOptions} {solution : String} :
      Context.pickExercise level pick = .ok e → o.solution = some solution →
      Judges c supplies (.exercise level (some pick) o)
        (.grading c.settings.config (e.full solution) e.tests)
  /-- There is such a task, and a solution is given. -/
  | practice {n : Nat} {p : Practice} {o : TaskOptions} {attempt : String} :
      Catalog.practice? n = some p → o.solution = some attempt →
      Judges c supplies (.practice (some n) o)
        (.comparison (c.config (some p.input)) attempt p.solution)
  | check {attempt reference : String} {input : Option String} :
      Judges c supplies (.check attempt reference input)
        (.comparison (c.config input) attempt reference)

/-- **The contract of exit codes**: 2 for settings that cannot be used, and else 0 if the program
has done well and 1 if it has not. -/
def ExitContract (settings : Settings) (j : Judgement) (exit : Nat) : Prop :=
  (¬ settings.Usable → exit = 2) ∧
    (settings.Usable → (j.Favourable → exit = 0) ∧ (¬ j.Favourable → exit = 1))

variable {c : Context} {supplies : Supplies} {command : Command} {j : Judgement}
  {config : Config}

/-- The command decides with cells and ceiling of the settings. -/
theorem Context.Judges.valid_iff (h : c.Judges supplies command j) :
    j.config.Valid ↔ c.settings.Usable := by
  have hsizes : j.config.memorySize = c.settings.memorySize ∧
      j.config.maxIterations = c.settings.maxIterations := by
    cases h <;> exact ⟨rfl, rfl⟩
  rw [Config.Valid, Settings.Usable, hsizes.1, hsizes.2, Nat.one_le_iff_ne_zero,
    Nat.one_le_iff_ne_zero]

namespace Context

/-! ## The ways to an interpreter -/

theorem exit_withInterpreter_of_not_valid (c : Context) (h : ¬ config.Valid)
    (use : Interpreter → Transcript) : (c.withInterpreter config use).exit = 2 := by
  rw [withInterpreter]
  split
  · rfl
  · next hnew => exact absurd (valid_of_new hnew).1 h

theorem withProgram_of_ok (c : Context) {file source : String}
    (h : asText (supplies.file file) = .ok source) (use : String → Transcript) :
    c.withProgram supplies file use = use source := by
  rw [withProgram, h]

theorem exit_withVerdict_of_not_valid (c : Context) (h : ¬ config.Valid)
    (attempt reference : String) (use : Verdict → Transcript) :
    (c.withVerdict attempt reference config use).exit = 2 := by
  rw [withVerdict, Verdict.judge]
  cases hfault : config.fault? with
  | some fault => rfl
  | none => exact absurd (Config.fault?_eq_none_iff.mp hfault) h

/-- Grading looks at the settings too, but turns them down as it turns down a solution. -/
theorem exit_gradeExercise_of_not_valid (c : Context) (h : ¬ c.settings.config.Valid)
    (e : Exercise) (solution : String) : (c.gradeExercise e solution).exit = 1 := by
  rw [gradeExercise, grade]
  cases hfault : c.settings.config.fault? with
  | some fault => rfl
  | none => exact absurd (Config.fault?_eq_none_iff.mp hfault) h

/-! ## What decides -/

/-- The exit code says whether it holds: 0 if it does, and 1 if it does not. -/
def Tells (exit : Nat) (holds : Prop) : Prop := (holds ∧ exit = 0) ∨ (¬ holds ∧ exit = 1)

theorem tells_execute (c : Context) (source : String) (it : Interpreter) (o : ReportOptions) :
    Tells (c.execute source it o).exit (∃ done, (it.execute source).1 = .ok done) := by
  have hexit : (c.execute source it o).exit =
      (c.report source (it.execute source).2 (it.execute source).1 o).exit := rfl
  rw [hexit]
  cases (it.execute source).1 with
  | ok done =>
    refine Or.inl ⟨⟨done, rfl⟩, ?_⟩
    unfold report
    split <;> rfl
  | error failure =>
    refine Or.inr ⟨by simp, ?_⟩
    unfold report
    split <;> rfl

theorem tells_debug (ending : DebugEnd) :
    Tells (debugExit ending) (ending = .quit ∨ ∃ output, ending = .finished output) := by
  cases ending with
  | finished output => exact Or.inl ⟨Or.inr ⟨output, rfl⟩, rfl⟩
  | quit => exact Or.inl ⟨Or.inl rfl, rfl⟩
  | failed fault => exact Or.inr ⟨by simp, rfl⟩
  | unreadable => exact Or.inr ⟨by simp, rfl⟩

/-- Nobody interrupts the animation of a command, so it comes to its end or fails. -/
theorem tells_animate (c : Context) (draw : Bool) (code : String) (config : Config) :
    Tells (c.animationClosing (c.viewer.animate draw code none (fresh config)).ending).exit
      (∃ output, (c.viewer.animate draw code none (fresh config)).ending = .completed output) := by
  obtain ⟨frames, ending, last, hcourse⟩ :=
    c.viewer.exists_course code (show (fresh config).sessionCount = _ from rfl)
  have hending : (c.viewer.animate draw code none (fresh config)).ending = ending := by
    rw [Viewer.animate_unstopped hcourse (by simp)]
  rw [hending]
  cases ending with
  | completed output => exact Or.inl ⟨⟨output, rfl⟩, rfl⟩
  | failed fault output => exact Or.inr ⟨by simp, rfl⟩
  | interrupted output => exact absurd rfl (hcourse.not_interrupted output)

theorem tells_gradeExercise (c : Context) (e : Exercise) (solution : String) :
    Tells (c.gradeExercise e solution).exit
      (grade (e.full solution) e.tests c.settings.config = none) := by
  rw [gradeExercise]
  cases grade (e.full solution) e.tests c.settings.config with
  | none => exact Or.inl ⟨rfl, rfl⟩
  | some fault => exact Or.inr ⟨by simp, rfl⟩

theorem tells_withInterpreter (c : Context) (h : config.Valid) {use : Interpreter → Transcript}
    {holds : Prop} (huse : Tells (use (fresh config)).exit holds) :
    Tells (c.withInterpreter config use).exit holds := by
  rw [withInterpreter, new_of_valid h]
  exact huse

theorem tells_withVerdict (c : Context) (h : config.Valid) (attempt reference : String)
    {use : Verdict → Transcript}
    (huse : ∀ verdict, (use verdict).exit = if verdict.isMatch then 0 else 1) :
    Tells (c.withVerdict attempt reference config use).exit
      (∃ verdict, Verdict.judge attempt reference config = .ok verdict ∧
        verdict.isMatch = true) := by
  rw [withVerdict]
  obtain ⟨verdict, hjudge⟩ : ∃ verdict, Verdict.judge attempt reference config = .ok verdict := by
    rw [Verdict.judge, Config.fault?_eq_none_iff.mpr h]
    exact ⟨_, rfl⟩
  rw [hjudge]
  dsimp only
  rw [Transcript.exit_after, huse]
  split
  · next hmatch => exact Or.inl ⟨⟨verdict, rfl, hmatch⟩, rfl⟩
  · next hmatch =>
    refine Or.inr ⟨?_, rfl⟩
    rintro ⟨_, ⟨⟩, hmatch'⟩
    exact hmatch hmatch'

/-! ## The exit code of a command -/

/-- With settings that can be used, the exit code tells the judgement. -/
theorem tells_perform (h : c.Judges supplies command j) (hvalid : j.config.Valid) :
    Tells (c.perform supplies command).exit j.Favourable := by
  cases h with
  | @run file source input o hsource =>
    rw [perform, runFile, withProgram_of_ok c hsource]
    exact tells_withInterpreter c hvalid (tells_execute c source _ o)
  | @exec code input o => exact tells_withInterpreter c hvalid (tells_execute c code _ o)
  | @examples name e input visualize hknown =>
    simp only [perform, Context.examples, hknown]
    exact tells_withInterpreter c hvalid (tells_execute c e.code _ _)
  | debug hsource =>
    rw [perform, Context.debug, withProgram_of_ok c hsource]
    exact tells_withInterpreter c hvalid (tells_debug _)
  | visualize => exact tells_withInterpreter c hvalid (tells_animate c _ _ _)
  | @exercise level pick e o solution hpick hsolution =>
    simp only [perform, Context.exercise, hpick, hsolution]
    exact tells_gradeExercise c e solution
  | practice hpick hsolution =>
    simp only [perform, Context.practice, hpick, hsolution]
    exact tells_withVerdict c hvalid _ _ fun verdict => by split <;> rfl
  | check => exact tells_withVerdict c hvalid _ _ fun verdict => by split <;> rfl

/-- With settings that cannot be used, the exit code is 2, or 1 if test cases decide. -/
theorem exit_perform_of_not_valid (h : c.Judges supplies command j) (hvalid : ¬ j.config.Valid) :
    (c.perform supplies command).exit = if j.isGrading then 1 else 2 := by
  cases h with
  | @run file source input o hsource =>
    show (c.withProgram supplies file _).exit = 2
    rw [withProgram_of_ok c hsource]
    exact exit_withInterpreter_of_not_valid c hvalid _
  | exec => exact exit_withInterpreter_of_not_valid c hvalid _
  | examples hknown =>
    simp only [perform, Context.examples, hknown]
    exact exit_withInterpreter_of_not_valid c hvalid _
  | debug hsource =>
    rw [perform, Context.debug, withProgram_of_ok c hsource]
    exact exit_withInterpreter_of_not_valid c hvalid _
  | visualize => exact exit_withInterpreter_of_not_valid c hvalid _
  | @exercise level pick e o solution hpick hsolution =>
    simp only [perform, Context.exercise, hpick, hsolution]
    exact exit_gradeExercise_of_not_valid c hvalid e solution
  | practice hpick hsolution =>
    simp only [perform, Context.practice, hpick, hsolution]
    exact exit_withVerdict_of_not_valid c hvalid _ _ _
  | check => exact exit_withVerdict_of_not_valid c hvalid _ _ _

theorem Tells.exitContract {settings : Settings} {exit : Nat} (h : Tells exit j.Favourable)
    (husable : settings.Usable) : ExitContract settings j exit := by
  refine ⟨fun hnot => absurd husable hnot, fun _ => ⟨fun hgood => ?_, fun hbad => ?_⟩⟩
  · exact (h.resolve_right fun hno => hno.1 hgood).2
  · exact (h.resolve_left fun hyes => hbad hyes.1).2

end Context

variable {s : Surroundings} {tokens : List String} {notes : List Write}

/-- **Which commands keep the contract of exit codes.**  Let a command line follow the grammar, and
let its command run a program.

* The exit code keeps the contract if and only if the settings can be used, or the command is not
  one that grades an exercise.  So running a file, code or an example, stepping, animating,
  practising and comparing keep it with all settings.
* Grading an exercise with settings that cannot be used ends with 1, as if the solution were
  wrong. -/
theorem exit_contract_iff (hready : prepare s tokens = .ready c command notes)
    (hjudges : c.Judges supplies command j) :
    ∃ t, respond s supplies tokens = some t ∧
      (ExitContract c.settings j t.exit ↔ c.settings.Usable ∨ j.isGrading = false) ∧
      (¬ c.settings.Usable → j.isGrading = true → t.exit = 1) := by
  refine ⟨_, respond_of_prepare hready supplies, ?_⟩
  rw [Transcript.exit_after]
  by_cases husable : c.settings.Usable
  · have hcontract : ExitContract c.settings j (c.perform supplies command).exit :=
      (Context.tells_perform hjudges (hjudges.valid_iff.mpr husable)).exitContract husable
    exact ⟨iff_of_true hcontract (Or.inl husable), fun hnot => absurd husable hnot⟩
  · -- only here the ways to an interpreter differ
    have hexit : (c.perform supplies command).exit = if j.isGrading then 1 else 2 :=
      Context.exit_perform_of_not_valid hjudges fun h => husable (hjudges.valid_iff.mp h)
    rw [hexit]
    cases hgrading : j.isGrading with
    | true =>
      refine ⟨iff_of_false (fun hcontract => ?_) (by simp [husable]), fun _ _ => rfl⟩
      exact absurd (hcontract.1 husable) (by decide)
    | false =>
      refine ⟨iff_of_true ⟨fun _ => rfl, fun h => absurd h husable⟩ (Or.inr rfl), ?_⟩
      exact fun _ h => absurd h (by decide)

/-- Two programs are compared without a cell to run them on, and a solution of the first exercise
is graded on a single cell. -/
theorem exit_contract_iff_cells :
    (∃ t, respond .bare .none ["--memory-size", "0", "check", "+", "-"] = some t ∧ t.exit = 2) ∧
      ∃ t, respond .bare .none
          ["--memory-size", "1", "exercise", "-n", "1", "-s", "++++++++++"] = some t ∧
        t.exit = 0 := by
  constructor
  · obtain ⟨t, ht, hiff, _⟩ :=
      @exit_contract_iff _ .none _ _ .bare ["--memory-size", "0", "check", "+", "-"] _ rfl .check
    exact ⟨t, ht, (hiff.mpr (Or.inr rfl)).1 fun husable => husable.1 rfl⟩
  · obtain ⟨t, ht, hiff, _⟩ :=
      @exit_contract_iff _ .none _ _ .bare
        ["--memory-size", "1", "exercise", "-n", "1", "-s", "++++++++++"] _ rfl (.exercise rfl rfl)
    have husable : Settings.Usable { memorySize := 1 } := by decide
    have hgood : grade "++++++++++" [.leaving [10]] { memorySize := 1 } = none := by decide +kernel
    exact ⟨t, ht, ((hiff.mpr (Or.inl husable)).2 husable).1 hgood⟩

/-- The first exercise, graded without a cell to run the solution on: 1, where it should be 2. -/
theorem grading_breaks_contract :
    ∃ c command notes j t,
      prepare .bare ["--memory-size", "0", "exercise", "-n", "1", "-s", "+"] =
        .ready c command notes ∧
      Context.Judges c .none command j ∧ c.settings.memorySize = 0 ∧
      respond .bare .none ["--memory-size", "0", "exercise", "-n", "1", "-s", "+"] = some t ∧
      t.exit = 1 ∧ ¬ ExitContract c.settings j t.exit := by
  refine ⟨_, _, _, _, _, rfl, .exercise rfl rfl, rfl, rfl, rfl, fun hcontract => ?_⟩
  exact absurd (hcontract.1 fun husable => husable.1 rfl) (by decide)

end CommandLine

end TapeTutor
