import TapeTutor.Catalog.Basic
import TapeTutor.CommandLine.Arguments

/-!
# Requests

A command line asks for one of nine commands, or for none.  `Request.parse` reads it: the
grammar of the tool itself up to the name of a command, then the grammar of that command, and
last the rules that a grammar cannot express, which options exclude or need each other.

Three options belong to the tool and may stand on either side of the command's name; the one
behind it wins.
-/

namespace TapeTutor.CommandLine

/-- What to show of a run besides its output. -/
structure ReportOptions where
  /-- Instruction count and leading cells. -/
  debug : Bool := false
  /-- The memory window. -/
  visualize : Bool := false
  /-- The trace table. -/
  trace : Bool := false
  /-- Statistics, loops and heat map. -/
  stats : Bool := false
  /-- The result as JSON and nothing else. -/
  json : Bool := false
deriving DecidableEq, Repr

/-- Whether the run has to be captured for that. -/
def ReportOptions.capture (o : ReportOptions) : Bool := o.debug || o.trace || o.stats

/-- Where the generator takes its bytes from. -/
inductive TextSource where
  | file (path : String)
  | words (text : String)
  | standardInput
deriving DecidableEq, Repr

/-- Which generated programs to print. -/
inductive Rendition where
  | both
  | simple
  | compact
deriving DecidableEq, Repr

/-- Which exercise of a level is asked for. -/
inductive Pick where
  | number (n : Nat)
  | seed (seed : Nat)
deriving DecidableEq, Repr

/-- What to do about a chosen task. -/
structure TaskOptions where
  /-- A solution to grade. -/
  solution : Option String := none
  hint : Bool := false
  showSolution : Bool := false
deriving DecidableEq, Repr

/-- A command with everything it was given. -/
inductive Command where
  /-- Runs a program file. -/
  | run (file : String) (input : Option String) (options : ReportOptions)
  /-- Runs code given inline. -/
  | exec (code : String) (input : Option String) (options : ReportOptions)
  /-- Steps through a program file. -/
  | debug (file : String) (input : Option String)
  /-- Animates code given inline. -/
  | visualize (code : String) (input : Option String) (speed : Option Nat)
  /-- Generates code that prints a text. -/
  | generate (source : TextSource) (rendition : Rendition)
  /-- Lists the examples or runs one. -/
  | examples (name : Option String) (input : Option String) (visualize : Bool)
  /-- Lists exercises, or shows and grades one. -/
  | exercise (level : Level) (pick : Option Pick) (options : TaskOptions)
  /-- Lists practice tasks, or shows and checks one. -/
  | practice (number : Option Nat) (options : TaskOptions)
  /-- Compares two programs. -/
  | check (attempt reference : String) (input : Option String)
deriving DecidableEq, Repr

/-- What a command line asks for. -/
structure Request where
  help : Bool
  verbose : Bool
  memorySize : Option Nat
  maxIterations : Option Nat
  command : Option Command
deriving DecidableEq, Repr

/-! ## Grammars -/

/-- The options of the tool that every command accepts too. -/
def sharedOptions : List OptionSpec :=
  [{ opt := .verbose, short := some 'v', long := "verbose" },
    { opt := .memorySize, short := none, long := "memory-size", operand := .count },
    { opt := .maxIterations, short := none, long := "max-iterations", operand := .count }]

/-- The grammar before the name of a command. -/
def toolGrammar : Grammar where
  options :=
    sharedOptions ++
      [{ opt := .help, short := some 'h', long := "help" },
        { opt := .version, short := some 'V', long := "version" }]
  words := []

/-- The option for the input of a program. -/
def inputOption : OptionSpec where
  opt := .input
  short := some 'i'
  long := "input"
  operand := .text

/-- The option for the instruction count and the leading cells. -/
def debugOption : OptionSpec where
  opt := .debug
  short := some 'd'
  long := "debug"

/-- The option for the trace table. -/
def traceOption : OptionSpec where
  opt := .trace
  short := some 't'
  long := "trace"

/-- The option for the memory window. -/
def visualizeOption : OptionSpec where
  opt := .visualize
  short := some 'V'
  long := "visualize"

/-- The option for the result as JSON. -/
def jsonOption : OptionSpec where
  opt := .json
  short := none
  long := "json"

/-- The options about a chosen task. -/
def taskOptions : List OptionSpec :=
  [{ opt := .solution, short := some 's', long := "solution", operand := .text
     anyValue := true },
    { opt := .hint, short := none, long := "hint" },
    { opt := .showSolution, short := none, long := "show-solution" }]

/-- The grammar of a command, by its name. -/
def commandGrammars : List (String × Grammar) :=
  [("run",
      { options :=
          [inputOption, debugOption, visualizeOption, traceOption,
            { opt := .stats, short := none, long := "stats" }, jsonOption]
        words := [{}] }),
    ("exec",
      { options := [inputOption, debugOption, traceOption, jsonOption]
        words := [{ hyphens := true }] }),
    ("debug", { options := [inputOption], words := [{}] }),
    ("visualize",
      { options :=
          [inputOption, { opt := .speed, short := some 's', long := "speed", operand := .count }]
        words := [{ hyphens := true }] }),
    ("generate",
      { options :=
          [{ opt := .file, short := some 'f', long := "file", operand := .text },
            { opt := .simple, short := none, long := "simple" },
            { opt := .compact, short := none, long := "compact" }]
        words := [{ greedy := true }] }),
    ("examples", { options := [inputOption, visualizeOption], words := [{}] }),
    ("exercise",
      { options :=
          [{ opt := .number, short := some 'n', long := "number", operand := .count },
            { opt := .seed, short := some 'g', long := "generate", operand := .count }] ++
            taskOptions
        words := [{}] }),
    ("practice", { options := taskOptions, words := [{}] }),
    ("check",
      { options := [inputOption], words := [{ hyphens := true }, { hyphens := true }] })]

/-- The grammar of a command, the options of the tool included. -/
def grammar? (name : String) : Option Grammar :=
  (commandGrammars.lookup name).map fun g => { g with options := g.options ++ sharedOptions }

/-! ## From arguments to a command -/

/-- What the arguments of a run ask to show. -/
def reportOptions (a : Arguments) : ReportOptions where
  debug := a.has .debug
  visualize := a.has .visualize
  trace := a.has .trace
  stats := a.has .stats
  json := a.has .json

/-- What to show of a run, unless JSON is asked for together with something else. -/
def reportOptions? (a : Arguments) : Option ReportOptions :=
  let o := reportOptions a
  if o.json && (o.debug || o.visualize || o.trace || o.stats) then none else some o

/-- What to do about a task, unless something is asked and no task is `chosen`. -/
def taskOptions? (a : Arguments) (chosen : Bool) : Option TaskOptions :=
  let o : TaskOptions :=
    { solution := a.value? .solution
      hint := a.has .hint
      showSolution := a.has .showSolution }
  if !chosen && (o.solution.isSome || o.hint || o.showSolution) then none else some o

/-- Reads the arguments of `generate`. -/
def generate? (a : Arguments) : Option Command :=
  let rendition? : Option Rendition :=
    match a.has .simple, a.has .compact with
    | true, true => none
    | true, false => some .simple
    | false, true => some .compact
    | false, false => some .both
  let source? : Option TextSource :=
    match a.value? .file, a.words with
    | some path, [] => some (.file path)
    | some _, _ => none
    | none, [] => some .standardInput
    | none, words => some (.words (" ".intercalate words))
  match source?, rendition? with
  | some source, some rendition => some (.generate source rendition)
  | _, _ => none

/-- Reads the arguments of `exercise`. -/
def exercise? (a : Arguments) : Option Command :=
  let level? : Option Level :=
    match a.words with
    | [] => some .beginner
    | name :: _ => Level.ofName? name
  match level?, a.count? .number, a.count? .seed with
  | none, _, _ => none
  | some _, some _, some _ => none
  | some level, some n, none =>
      (taskOptions? a true).map fun o => .exercise level (some (.number n)) o
  | some level, none, some seed =>
      (taskOptions? a true).map fun o => .exercise level (some (.seed seed)) o
  | some level, none, none => (taskOptions? a false).map fun o => .exercise level none o

/-- Reads the arguments of `practice`. -/
def practice? (a : Arguments) : Option Command :=
  match a.words with
  | [] => (taskOptions? a false).map fun o => .practice none o
  | word :: _ =>
      match Text.readCount? word.toList with
      | some n => (taskOptions? a true).map fun o => .practice (some n) o
      | none => none

/-- The command of that name with its arguments, unless they break its rules. -/
def Command.ofArguments? (name : String) (a : Arguments) : Option Command :=
  let input := a.value? .input
  match name, a.words with
  | "run", [file] => (reportOptions? a).map fun o => .run file input o
  | "exec", [code] => (reportOptions? a).map fun o => .exec code input o
  | "debug", [file] => some (.debug file input)
  | "visualize", [code] => some (.visualize code input (a.count? .speed))
  | "generate", _ => generate? a
  | "examples", words => some (.examples words.head? input (a.has .visualize))
  | "exercise", _ => exercise? a
  | "practice", _ => practice? a
  | "check", [attempt, reference] => some (.check attempt reference input)
  | _, _ => none

/-- Reads the tokens from the name of a command on. -/
def parseCommand (name : String) (tokens : List String) :
    Except Refusal (Arguments × Command) :=
  match grammar? name with
  | none => .error .misuse
  | some g =>
      match g.sort (fun _ => false) .initial tokens with
      | .error refusal => .error refusal
      | .ok (a, _) =>
          match Command.ofArguments? name a with
          | some command => .ok (a, command)
          | none => .error .misuse

/-- Reads a command line. -/
def Request.parse (tokens : List String) : Except Refusal Request :=
  match toolGrammar.sort (fun token => (grammar? token).isSome) .initial tokens with
  | .error refusal => .error refusal
  | .ok (tool, []) =>
      .ok
        { help := tool.has .help
          verbose := tool.has .verbose
          memorySize := tool.count? .memorySize
          maxIterations := tool.count? .maxIterations
          command := none }
  | .ok (tool, name :: rest) =>
      match parseCommand name rest with
      | .error refusal => .error refusal
      | .ok (own, command) =>
          .ok
            { help := tool.has .help
              verbose := tool.has .verbose || own.has .verbose
              memorySize := (own.count? .memorySize).or (tool.count? .memorySize)
              maxIterations := (own.count? .maxIterations).or (tool.count? .maxIterations)
              command := some command }

end TapeTutor.CommandLine
