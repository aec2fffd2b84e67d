import TapeTutor.CommandLine.Running
import TapeTutor.CommandLine.Teaching

/-!
# From a command line to a transcript

`prepare` reads the command line and resolves the settings: the defaults, then the settings
file, then the environment variables, then the options.  It needs nothing but the arguments
and the `Surroundings`.  `Context.perform` then carries the command out, with what the
outside supplies for it.

A command line that does not follow the grammar wins over everything else: nothing is read
then, and how to tell the user is left to the caller.  A request for help comes next, before
any setting is looked at.
-/

namespace TapeTutor.CommandLine

/-- Where the tool is called. -/
structure Surroundings where
  /-- The name of the tool, as its messages begin. -/
  name : String
  /-- The settings file with its path, if there is one: its bytes, or why they cannot be
  read. -/
  settingsFile : Option (String × Except String (List UInt8))
  /-- The environment variables. -/
  environment : String → Option String
  /-- Whether the standard output takes colour. -/
  colorOut : Bool := false
  /-- Whether the standard error stream takes colour. -/
  colorErr : Bool := false
  /-- Whether the standard output is a screen. -/
  screen : Bool := false

/-! ## Usage -/

/-- The answer to a request for the version. -/
def versionText : String := "bf 0.1.0\n"

/-- The commands with what they accept, and what they do. -/
def synopses : List (String × String) :=
  [("run <FILE> [-i INPUT] [-d] [-V] [-t] [--stats] [--json]", "Run a program file"),
    ("exec <CODE> [-i INPUT] [-d] [-t] [--json]", "Run code given inline"),
    ("debug <FILE> [-i INPUT]", "Step through a program"),
    ("visualize <CODE> [-i INPUT] [-s MS]", "Animate execution"),
    ("generate [--simple|--compact] [TEXT...]", "Generate code that prints TEXT"),
    ("examples [NAME] [-i INPUT]", "List or run built-in examples"),
    ("exercise [LEVEL] [-n N|-g SEED] [-s CODE] [--hint]", "Graded exercises"),
    ("practice [N] [-s CODE] [--hint] [--show-solution]", "Lesson practice tasks"),
    ("check <ATTEMPT> <REFERENCE> [-i INPUT]", "Compare two programs")]

/-- The options of the tool, and what they do. -/
def optionHelp : List (String × String) :=
  [("--memory-size <N>", "Tape length in cells (fallback BF_MEMORY_SIZE; default 30000)"),
    ("--max-iterations <N>",
      "Instruction ceiling (fallback BF_MAX_ITERATIONS; default 1000000)"),
    ("--verbose, -v", "Enable debug logging (RUST_LOG is honoured)"),
    ("--help,    -h", "Show this help")]

/-- The usage of the tool. -/
def usage (name : String) : String :=
  "Usage:\n" ++
    String.join (synopses.map fun (synopsis, purpose) =>
      "  " ++ name ++ " " ++ Text.alignLeft 57 synopsis ++ "# " ++ purpose ++ "\n") ++
    "\nGlobal options:\n" ++
    String.join (optionHelp.map fun (option, purpose) =>
      "  " ++ Text.alignLeft 22 option ++ purpose ++ "\n") ++
    "\nSettings are also read from $XDG_CONFIG_HOME/bf-learn.toml.\n" ++
    "Run \"" ++ name ++ " <subcommand> --help\" for more info.\n\n"

/-! ## Settings -/

/-- The note that a settings file is going to be read. -/
def loadingNote (path : String) : Note where
  severity := .debug
  origin := "bf::config"
  message := "loading settings from " ++ path

/-- The settings of the file, and the notes of reading it. -/
def fileSettings (s : Surroundings) : List Note × Except ConfigFault Settings :=
  match s.settingsFile with
  | none => ([], .ok {})
  | some (path, read) =>
      match asText read with
      | .error cause => ([], .error (.unreadable path cause))
      | .ok text => ([loadingNote path], Settings.ofText text)

/-- The settings of file and environment, and the notes of reading them. -/
def loadSettings (s : Surroundings) : List Note × Except ConfigFault Settings :=
  match fileSettings s with
  | (notes, .error fault) => (notes, .error fault)
  | (notes, .ok settings) => (notes, settings.withVariables s.environment)

/-- The settings with the options of the command line on top. -/
def Request.override (r : Request) (settings : Settings) : Settings :=
  { settings with
    memorySize := r.memorySize.getD settings.memorySize
    maxIterations := r.maxIterations.getD settings.maxIterations }

/-- The note of the settings that were resolved. -/
def settingsNote (settings : Settings) : Note where
  severity := .debug
  origin := "bf"
  message :=
    "settings: memory_size=" ++ toString settings.memorySize ++ " max_iterations=" ++
      toString settings.maxIterations

/-- The threshold of the journal: the environment decides if it says anything. -/
def threshold (s : Surroundings) (verbose : Bool) : Threshold :=
  match s.environment "RUST_LOG" with
  | some name => .ofName name
  | none => if verbose then some .debug else none

/-! ## Answers -/

/-- What a command line comes to before its command is carried out. -/
inductive Prepared where
  /-- It does not follow the grammar. -/
  | misuse
  /-- There is no command to carry out, or the settings are faulty. -/
  | closed (transcript : Transcript)
  /-- A command is to be carried out, after some notes. -/
  | ready (context : Context) (command : Command) (notes : List Write)

/-- Resolves the settings for a command. -/
def Request.prepare (r : Request) (s : Surroundings) (command : Command) : Prepared :=
  let bare : Context :=
    { name := s.name
      settings := {}
      threshold := threshold s r.verbose
      colorOut := s.colorOut
      colorErr := s.colorErr
      screen := s.screen }
  match loadSettings s with
  | (notes, .error fault) => .closed ((bare.refuse fault.message 2).after (bare.notes notes))
  | (notes, .ok settings) =>
      let settings := r.override settings
      .ready { bare with settings } command (bare.notes (notes ++ [settingsNote settings]))

/-- Reads a command line and resolves its settings. -/
def prepare (s : Surroundings) (tokens : List String) : Prepared :=
  match Request.parse tokens with
  | .error .misuse => .misuse
  | .error .version => .closed { writes := [.out versionText], exit := 0 }
  | .ok r =>
      match r.help, r.command with
      | false, some command => r.prepare s command
      | help, _ =>
          .closed { writes := [.err (usage s.name)], exit := if help then 0 else 2 }

/-- Carries a command out. -/
def Context.perform (c : Context) (supplies : Supplies) : Command → Transcript
  | .run file input options => c.runFile supplies file input options
  | .exec code input options => c.runCode code input options
  | .debug file input => c.debug supplies file input
  | .visualize code input speed => c.visualize code input speed
  | .generate source rendition => c.generate supplies source rendition
  | .examples name input visualize => c.examples name input visualize
  | .exercise level pick options => c.exercise level pick options
  | .practice number options => c.practice number options
  | .check attempt reference input => c.check attempt reference input

/-- The transcript of a command line; nothing if it does not follow the grammar. -/
def respond (s : Surroundings) (supplies : Supplies) (tokens : List String) :
    Option Transcript :=
  match prepare s tokens with
  | .misuse => none
  | .closed transcript => some transcript
  | .ready c command notes => some ((c.perform supplies command).after notes)

end TapeTutor.CommandLine
