import TapeTutor.Catalog.Exercises
import TapeTutor.Catalog.Generated
import TapeTutor.Catalog.Practice
import TapeTutor.CommandLine.Context

/-!
# Commands that teach

Generating code, exercises, practice tasks and comparing two programs.

Settings that cannot be used are told apart by how a task is judged.  Comparing refuses them
as the tool's own mistake, with exit code 2.  Grading treats them as one more reason why a
solution is not accepted, with exit code 1.
-/

namespace TapeTutor.CommandLine.Context

/-! ## Generating -/

/-- The bytes to generate code for. -/
def textBytes (supplies : Supplies) : TextSource → Except String (List UInt8)
  | .file path => supplies.file path
  | .words text => .ok (Text.utf8Bytes text)
  | .standardInput => .ok supplies.stdin

/-- Generates code that prints a text, without loops and with. -/
def generate (c : Context) (supplies : Supplies) (source : TextSource) (rendition : Rendition) :
    Transcript :=
  match textBytes supplies source with
  | .error cause => c.refuse ("failed to read file: " ++ cause) 1
  | .ok bytes =>
      let simple := TapeTutor.generate .simple bytes
      let compact := TapeTutor.generate {} bytes
      { writes :=
          c.notes [Journal.generated simple bytes, Journal.generated compact bytes] ++
            match rendition with
            | .simple => [outLine (spell simple)]
            | .compact => [outLine (spell compact)]
            | .both =>
                [outLine (c.good "Generated Brainfuck code:"), outLine (spell simple),
                  outLine "", outLine (c.topic "Optimized version:"), outLine (spell compact)]
        exit := 0 }

/-! ## Exercises -/

/-- A numbered list under a heading. -/
def listed (heading : String) (entries : List (String × String)) : Transcript where
  writes :=
    outLine heading ::
      (entries.zipIdx 1).map fun ((title, description), n) =>
        outLine ("  " ++ toString n ++ ". " ++ title ++ ": " ++ description)
  exit := 0

/-- The exercise that is asked for, or why there is none. -/
def pickExercise (level : Level) : Pick → Except String Exercise
  | .seed seed =>
      match Exercise.ofSeed level seed.toUInt64 with
      | some e => .ok e
      | none => .error ("no generated exercises at level " ++ level.name)
  | .number n =>
      match Catalog.exercise? level n with
      | some e => .ok e
      | none =>
          .error ("no exercise " ++ toString n ++ " at level " ++ level.name ++ " (" ++
            toString (Catalog.exercises level).length ++ " available)")

/-- Hint and solution of a task, as far as they are asked for. -/
def helpWrites (c : Context) (o : TaskOptions) (hint solution : String) : List Write :=
  (if o.hint then [outLine (c.label "Hint:" ++ " " ++ hint)] else []) ++
    (if o.showSolution then [outLine (c.label "Solution:" ++ " " ++ solution)] else [])

/-- What is shown of an exercise. -/
def exerciseWrites (c : Context) (e : Exercise) (o : TaskOptions) : List Write :=
  [outLine (c.topic "Exercise:" ++ " " ++ e.title), outLine e.description] ++
    (if e.setup.isEmpty then []
      else [outLine (c.topic "Setup (runs before your code):" ++ " " ++ e.setup)]) ++
    c.helpWrites o e.hint e.solution

/-- Grades a solution of an exercise. -/
def gradeExercise (c : Context) (e : Exercise) (solution : String) : Transcript :=
  let config := c.settings.config
  let code := e.full solution
  let notes := c.notes (Journal.grading c.threshold code e.tests config)
  match grade code e.tests config with
  | none => { writes := notes ++ [outLine (c.good "✓ Correct! Well done!")], exit := 0 }
  | some fault =>
      { writes := notes ++ [outLine (c.bad "✗ Incorrect:" ++ " " ++ fault.message)], exit := 1 }

/-- Lists the exercises of a level, or shows one and grades a solution. -/
def exercise (c : Context) (level : Level) (pick : Option Pick) (o : TaskOptions) : Transcript :=
  match pick with
  | none =>
      listed (c.topic "Exercises" ++ " (" ++ level.name ++ ")")
        ((Catalog.exercises level).map fun e => (e.title, e.description))
  | some pick =>
      match pickExercise level pick with
      | .error message => c.refuse message 2
      | .ok e =>
          let graded : Transcript := match o.solution with
            | none => ⟨[], 0⟩
            | some solution => c.gradeExercise e solution
          graded.after (c.exerciseWrites e o)

/-! ## Comparing -/

/-- Runs two programs and does something with the verdict. -/
def withVerdict (c : Context) (attempt reference : String) (config : Config)
    (use : Verdict → Transcript) : Transcript :=
  match Verdict.judge attempt reference config with
  | .error fault => c.refuse fault.message 2
  | .ok verdict =>
      (use verdict).after (c.notes (Journal.comparison c.threshold attempt reference config))

/-- The output and the leading cells of a completed trial. -/
def trialText (done : Completion) (t : Trial) : String :=
  " output " ++ Text.quoted (Text.showBytes done.output) ++ ", cells " ++ Text.listBytes t.memory

/-- What is said about a solved practice task. -/
def solvedWrites (c : Context) (v : Verdict) : List Write :=
  outLine (c.good "✓ Correct! Well done!") ::
    match v.attempt.result with
    | .ok done =>
        if done.output.isEmpty then []
        else [outLine (c.label "Output:" ++ " " ++ Text.showBytes done.output)]
    | .error _ => []

/-- What is said about a practice task that is not solved. -/
def unsolvedWrites (c : Context) (v : Verdict) : List Write :=
  [outLine (c.bad "✗ Not quite right."),
    match v.attempt.result with
    | .ok done => outLine (c.label "Yours:" ++ trialText done v.attempt)
    | .error failure =>
        outLine (c.label "Yours:" ++ " " ++ c.bad "error:" ++ " " ++ failure.fault.message)] ++
    match v.reference.result with
    | .ok done => [outLine (c.label "Expected:" ++ trialText done v.reference)]
    | .error _ => []

/-- What is shown of a practice task. -/
def practiceWrites (c : Context) (p : Practice) (o : TaskOptions) : List Write :=
  [outLine (c.topic "Lesson:" ++ " " ++ p.lesson), outLine p.task] ++
    (if p.input.isEmpty then [] else [outLine (c.topic "Input:" ++ " " ++ p.input)]) ++
    c.helpWrites o p.hint p.solution

/-- Checks an attempt at a practice task. -/
def checkPractice (c : Context) (p : Practice) (attempt : String) : Transcript :=
  c.withVerdict attempt p.solution (c.config (some p.input)) fun v =>
    if v.isMatch then { writes := c.solvedWrites v, exit := 0 }
    else { writes := c.unsolvedWrites v, exit := 1 }

/-- Lists the practice tasks, or shows one and checks an attempt. -/
def practice (c : Context) (number : Option Nat) (o : TaskOptions) : Transcript :=
  match number with
  | none =>
      listed (c.topic "Practice tasks") (Catalog.practices.map fun p => (p.lesson, p.task))
  | some n =>
      match Catalog.practice? n with
      | none =>
          c.refuse ("no practice task " ++ toString n ++ " (" ++
            toString Catalog.practices.length ++ " available)") 2
      | some p =>
          let checked : Transcript := match o.solution with
            | none => ⟨[], 0⟩
            | some attempt => c.checkPractice p attempt
          checked.after (c.practiceWrites p o)

/-- The two lines about one of two programs that differ. -/
def trialWrites (c : Context) (title : String) (t : Trial) : List Write :=
  [match t.result with
    | .ok done => outLine (c.label title ++ " output " ++ Text.quoted (Text.showBytes done.output))
    | .error failure =>
        outLine (c.label title ++ " " ++ c.bad "error:" ++ " " ++ failure.fault.message),
    outLine ("  first " ++ toString comparedCells ++ " cells: " ++ Text.listBytes t.memory)]

/-- Compares two programs. -/
def check (c : Context) (attempt reference : String) (input : Option String) : Transcript :=
  c.withVerdict attempt reference (c.config input) fun v =>
    if v.isMatch then { writes := [outLine (c.good "✓ Programs match")], exit := 0 }
    else
      { writes :=
          outLine (c.bad "✗ Programs differ") ::
            (c.trialWrites "Attempt:" v.attempt ++ c.trialWrites "Reference:" v.reference)
        exit := 1 }

end TapeTutor.CommandLine.Context
