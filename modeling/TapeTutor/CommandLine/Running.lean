import TapeTutor.Catalog.Examples
import TapeTutor.CommandLine.Context
import TapeTutor.Debugger
import TapeTutor.Report.Summary
import TapeTutor.Report.Trace
import TapeTutor.View.Animation
import TapeTutor.View.Loops
import TapeTutor.View.Stats

/-!
# Commands that run programs

Running a file, inline code or an example, stepping through a file, and animating inline
code.  The exit codes are the same for all of them: 2 if the settings cannot be used, 1 if a
file cannot be read or the program fails, 0 if it comes to its end or the user leaves.
-/

namespace TapeTutor.CommandLine.Context

/-! ## Reports -/

/-- The trace table of a captured run. -/
def traceWrites (c : Context) (source : String) (done : Completion) : List Write :=
  c.notes (Journal.reading source) ++
    match Program.parse source, done.history with
    | .ok p, some history => [.out (Trace.table p history)]
    | _, _ => []

/-- Instruction count and leading cells. -/
def debugWrites (c : Context) (it : Interpreter) (done : Completion) : List Write :=
  [outLine (c.topic "Iterations:" ++ " " ++ toString done.iterations),
    outLine (c.topic "Final memory (first 20 cells):"),
    outLine (Text.listBytes (it.snapshot 0 20))]

/-- The memory window from the first cell on. -/
def memoryWrites (c : Context) (it : Interpreter) : List Write :=
  [outLine "", .out (c.viewer.memory it.machine.tape it.machine.head 0)]

/-- Statistics, loops and heat map. -/
def statsWrites (c : Context) (source : String) (it : Interpreter) (done : Completion) :
    List Write :=
  (match done.history with
    | some history => [outLine "", .out (c.viewer.stats history)]
    | none => []) ++
    c.notes (Journal.reading source) ++
    (match Program.parse source with
      | .ok p => [outLine "", .out (c.viewer.loops p)]
      | .error _ => []) ++
    [outLine "", .out (c.viewer.heatMap it.machine.tape)]

/-- The report of a run that came to its end. -/
def completionReport (c : Context) (source : String) (it : Interpreter) (done : Completion)
    (o : ReportOptions) : Transcript where
  writes :=
    (if o.trace then c.traceWrites source done else []) ++
      [outLine (c.good "✓ Program executed successfully"),
        outLine (c.label "Output:" ++ " " ++ Text.showBytes done.output)] ++
      (if o.debug then c.debugWrites it done else []) ++
      (if o.visualize then c.memoryWrites it else []) ++
      (if o.stats then c.statsWrites source it done else [])
  exit := 0

/-- The report of a run that failed. -/
def failureReport (c : Context) (source : String) (failure : Failure) : Transcript :=
  let palette := c.settings.palette
  { writes :=
      [.err (failure.fault.report (some c.name) (crossSign c.colorErr palette) source),
        .out (partialOutput c.colorOut palette (Text.showBytes failure.output))]
    exit := 1 }

/-- The report of a run. -/
def report (c : Context) (source : String) (it : Interpreter) (result : Execution)
    (o : ReportOptions) : Transcript :=
  if o.json then
    { writes := [outLine result.json]
      exit := match result with
        | .ok _ => 0
        | .error _ => 1 }
  else
    match result with
    | .ok done => c.completionReport source it done o
    | .error failure => c.failureReport source failure

/-- Runs a source text and reports. -/
def execute (c : Context) (source : String) (it : Interpreter) (o : ReportOptions) :
    Transcript :=
  let notes := c.notes (Journal.execution c.threshold it.config source)
  let (result, it) := it.execute source
  (c.report source it result o).after notes

/-! ## Running -/

/-- Does something with an interpreter, if the configuration can be used. -/
def withInterpreter (c : Context) (config : Config) (use : Interpreter → Transcript) :
    Transcript :=
  match Interpreter.new config with
  | .error fault => c.refuse fault.message 2
  | .ok it => use it

/-- Does something with the text of a program file. -/
def withProgram (c : Context) (supplies : Supplies) (file : String)
    (use : String → Transcript) : Transcript :=
  match asText (supplies.file file) with
  | .error cause => c.refuse ("failed to read code file as UTF-8: " ++ cause) 1
  | .ok source => use source

/-- The note about a file that is going to be run. -/
def runningNote (file source : String) : Note where
  severity := .debug
  origin := "bf::commands::run"
  message :=
    "running " ++ file ++ " (" ++ toString source.utf8ByteSize ++ " bytes of source)"

/-- Runs a program file. -/
def runFile (c : Context) (supplies : Supplies) (file : String) (input : Option String)
    (o : ReportOptions) : Transcript :=
  c.withProgram supplies file fun source =>
    let config := { c.config input with capture := o.capture }
    c.withInterpreter config fun it =>
      (c.execute source it o).after (c.notes [runningNote file source])

/-- Runs code given inline. -/
def runCode (c : Context) (code : String) (input : Option String) (o : ReportOptions) :
    Transcript :=
  let config := { c.config input with capture := o.capture }
  c.withInterpreter config fun it => c.execute code it o

/-! ## Examples -/

/-- The list of the examples. -/
def listExamples (c : Context) : Transcript where
  writes :=
    outLine (c.topic "Available examples:") ::
      Catalog.examples.map fun e =>
        outLine ("  " ++ Text.alignLeft 12 e.name ++ " [" ++ e.level.name ++ "] " ++
          e.description)
  exit := 0

/-- Runs an example. -/
def runExample (c : Context) (e : Example) (input : Option String) (visualize : Bool) :
    Transcript :=
  let input := input.getD e.sampleInput
  c.withInterpreter (c.config (some input)) fun it =>
    (c.execute e.code it { visualize }).after
      ([outLine (c.topic "Example:" ++ " " ++ e.description),
        outLine (c.topic "Code:" ++ " " ++ e.code)] ++
        if input.isEmpty then [] else [outLine (c.topic "Input:" ++ " " ++ input)])

/-- Lists the examples or runs one. -/
def examples (c : Context) (name input : Option String) (visualize : Bool) : Transcript :=
  match name with
  | none => c.listExamples
  | some name =>
      match Catalog.example? name with
      | none => c.refuse ("unknown example '" ++ name ++ "'") 2
      | some e => c.runExample e input visualize

/-! ## Stepping -/

/-- The notes of a debugging run. -/
def debugNotes (c : Context) (talk : Debugger.Talk) : List Write :=
  let fault? := match talk.ending with
    | .failed fault => some fault
    | _ => none
  c.notes (Journal.stepping c.threshold talk.debugger.interpreter.config talk.debugger.code
    talk.debugger.steps fault?)

/-- The exit code of a debugging run. -/
def debugExit : DebugEnd → Nat
  | .finished _ => 0
  | .quit => 0
  | .failed _ => 1
  | .unreadable => 1

/-- What is said last about a debugging run. -/
def debugClosing (c : Context) : DebugEnd → List Write
  | .unreadable => [.err (c.name ++ ": debugger error: " ++ notUtf8 ++ "\n")]
  | _ => []

/-- Steps through a program file, with the standard input as the user. -/
def debug (c : Context) (supplies : Supplies) (file : String) (input : Option String) :
    Transcript :=
  c.withProgram supplies file fun source =>
    c.withInterpreter (c.config input) fun it =>
      let talk := (Debugger.start it source).run (Debugger.repliesOf supplies.stdin)
      { writes := c.debugNotes talk ++ [.out talk.text] ++ c.debugClosing talk.ending
        exit := debugExit talk.ending }

/-! ## Animating -/

/-- A line for what a program has written, if it has written anything. -/
def outputLine (c : Context) (title : String) (output : Array UInt8) : List Write :=
  if output.isEmpty then [] else [outLine (c.label title ++ " " ++ Text.showBytes output)]

/-- What is said about the end of an animation. -/
def animationClosing (c : Context) : AnimationEnd → Transcript
  | .completed output =>
      { writes :=
          [outLine "", outLine (c.good "✓ Program completed successfully")] ++
            c.outputLine "Final output:" output
        exit := 0 }
  | .failed fault output =>
      { writes :=
          [outLine "", outLine (c.bad "✗ Error:" ++ " " ++ fault.message)] ++
            c.outputLine "Partial output:" output
        exit := 1 }
  | .interrupted output =>
      { writes :=
          [outLine "", outLine (c.label "Stopped")] ++ c.outputLine "Output so far:" output
        exit := 130 }

/-- The notes of an animation. -/
def animationNotes (c : Context) (code : String) (a : Animation) : List Write :=
  let fault? := match a.ending with
    | .failed fault _ => some fault
    | _ => none
  c.notes (Journal.stepping c.threshold a.interpreter.config code
    a.interpreter.machine.iterations fault?)

/-- Animates code given inline; without a pause between the frames none are drawn. -/
def visualize (c : Context) (code : String) (input : Option String) (speed : Option Nat) :
    Transcript :=
  let delay := speed.getD c.settings.animationMs
  c.withInterpreter (c.config input) fun it =>
    let a := c.viewer.animate (0 < delay) code none it
    (c.animationClosing a.ending).after
      (c.animationNotes code a ++ a.frames.flatMap fun frame => [.out frame, .pause delay])

end TapeTutor.CommandLine.Context
