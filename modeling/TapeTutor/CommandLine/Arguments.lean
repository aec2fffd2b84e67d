import TapeTutor.Text.Decimal

/-!
# Arguments

The words of a command line are sorted into options and positional words by a `Grammar`.  An
option is written long (`--input text`, `--input=text`) or short (`-i text`, `-itext`,
`-i=text`), and short options without a value can be joined (`-dt`).  After `--` every word
is positional.

Two things make the sorting depend on what is still missing.

* Code may begin with a hyphen.  While a positional word that may do so is missing, a token
  that is no known option is not refused: it is that word, or the value of an option that is
  waiting for one.  A joined token counts as unknown if any of its letters is.
* An option that takes code as its value takes the very next token, whatever it looks like.

An option may be given once.  The request for the version is answered where it is met, before
anything behind it is looked at.
-/

namespace TapeTutor.CommandLine

/-- The options of all commands. -/
inductive Opt where
  | help
  | version
  | verbose
  | memorySize
  | maxIterations
  | input
  | debug
  | visualize
  | trace
  | stats
  | json
  | speed
  | file
  | simple
  | compact
  | number
  | seed
  | solution
  | hint
  | showSolution
deriving DecidableEq, Repr

/-- What an option takes. -/
inductive Operand where
  /-- Nothing: the option is a switch. -/
  | nothing
  /-- Any text. -/
  | text
  /-- A count. -/
  | count
deriving DecidableEq, Repr

/-- An option as a grammar describes it. -/
structure OptionSpec where
  opt : Opt
  /-- The letter of its short form. -/
  short : Option Char
  /-- The word of its long form. -/
  long : String
  operand : Operand := .nothing
  /-- Whether its value may be any token, also one that looks like an option. -/
  anyValue : Bool := false
deriving DecidableEq, Repr

/-- A positional word as a grammar describes it. -/
structure WordSpec where
  /-- Whether the word may begin with a hyphen. -/
  hyphens : Bool := false
  /-- Whether everything that follows belongs to it too. -/
  greedy : Bool := false
deriving DecidableEq, Repr

/-- What a command accepts. -/
structure Grammar where
  options : List OptionSpec
  words : List WordSpec
deriving Repr

/-- Why a command line is not carried out. -/
inductive Refusal where
  /-- It does not follow the grammar. -/
  | misuse
  /-- It asks for the version. -/
  | version
deriving DecidableEq, Repr

/-- Sorted arguments. -/
structure Arguments where
  /-- The options with their values; a switch has an empty value. -/
  options : List (Opt × String)
  /-- The positional words, in order. -/
  words : List String
deriving DecidableEq, Repr

namespace Arguments

/-- Whether an option was given. -/
def has (a : Arguments) (opt : Opt) : Bool := a.options.any fun given => given.1 = opt

/-- The value of an option, if it was given. -/
def value? (a : Arguments) (opt : Opt) : Option String := a.options.lookup opt

/-- The value of an option that takes a count, if it was given. -/
def count? (a : Arguments) (opt : Opt) : Option Nat :=
  (a.value? opt).bind fun value => Text.readCount? value.toList

end Arguments

namespace Grammar

/-- The option with a short letter. -/
def short? (g : Grammar) (c : Char) : Option OptionSpec :=
  g.options.find? fun spec => spec.short = some c

/-- The option with a long word. -/
def long? (g : Grammar) (word : List Char) : Option OptionSpec :=
  g.options.find? fun spec => spec.long.toList = word

/-! ## Sorting -/

/-- The state of sorting. -/
structure State where
  /-- The options so far, the latest first. -/
  options : List (Opt × String)
  /-- The words so far, the latest first. -/
  words : List String
  /-- The option that waits for its value. -/
  pending : Option OptionSpec
  /-- Whether every further token is a word. -/
  literal : Bool

/-- The state before the first token. -/
def State.initial : State := ⟨[], [], none, false⟩

/-- The arguments sorted so far. -/
def State.arguments (s : State) : Arguments := ⟨s.options.reverse, s.words.reverse⟩

/-- The word that is missing next. -/
def nextWord? (g : Grammar) (s : State) : Option WordSpec :=
  match g.words[s.words.length]? with
  | some spec => some spec
  | none => g.words.getLast?.filter WordSpec.greedy

/-- Whether the next word is missing and may begin with a hyphen. -/
def wantsHyphens (g : Grammar) (s : State) : Bool :=
  (g.nextWord? s).any WordSpec.hyphens

/-- Whether a value fits an option. -/
def fits (spec : OptionSpec) (value : List Char) : Bool :=
  match spec.operand with
  | .nothing => true
  | .text => true
  | .count => (Text.readCount? value).isSome

/-- Takes an option with its value. -/
def accept (s : State) (spec : OptionSpec) (value : List Char) : Except Refusal State :=
  if s.pending.isSome then .error .misuse
  else if spec.opt = .version then .error .version
  else if s.arguments.has spec.opt then .error .misuse
  else if fits spec value then
    .ok { s with options := (spec.opt, String.ofList value) :: s.options }
  else .error .misuse

/-- Makes an option wait for its value. -/
def await (s : State) (spec : OptionSpec) : Except Refusal State :=
  if s.pending.isSome then .error .misuse else .ok { s with pending := some spec }

/-- Takes a token as the value that is waited for, or else as the next word. -/
def plain (g : Grammar) (s : State) (token : List Char) : Except Refusal State :=
  match s.pending with
  | some spec => accept { s with pending := none } spec token
  | none =>
      match g.nextWord? s with
      | some spec =>
          .ok { s with
            words := String.ofList token :: s.words
            literal := s.literal || spec.greedy }
      | none => .error .misuse

/-- Takes the letters of a joined token. -/
def cluster (g : Grammar) (s : State) : List Char → Except Refusal State
  | [] => .ok s
  | c :: rest =>
      match g.short? c with
      | none => .error .misuse
      | some spec =>
          if spec.operand = .nothing then
            match accept s spec [] with
            | .error refusal => .error refusal
            | .ok s => cluster g s rest
          else
            match rest with
            | [] => await s spec
            | '=' :: value => accept s spec value
            | value => accept s spec value

/-- Takes a long option, with the value attached to it if there is one. -/
def longOption (s : State) (spec : OptionSpec) (attached : Option (List Char)) :
    Except Refusal State :=
  match spec.operand, attached with
  | .nothing, none => accept s spec []
  | .nothing, some _ => .error .misuse
  | _, some value => accept s spec value
  | _, none => await s spec

/-- The parts of a long option before and behind the first `=`. -/
def splitAttached (body : List Char) : List Char × Option (List Char) :=
  match body.dropWhile (· ≠ '=') with
  | [] => (body, none)
  | _ :: value => (body.takeWhile (· ≠ '='), some value)

/-- Takes one token. -/
def take (g : Grammar) (s : State) (token : List Char) : Except Refusal State :=
  if s.literal || s.pending.any OptionSpec.anyValue then g.plain s token
  else
    match token with
    | ['-', '-'] => if s.pending.isSome then .error .misuse else .ok { s with literal := true }
    | '-' :: '-' :: body =>
        let (word, attached) := splitAttached body
        match g.long? word with
        | some spec => longOption s spec attached
        | none => if g.wantsHyphens s then g.plain s token else .error .misuse
    | '-' :: c :: letters =>
        if g.wantsHyphens s && (c :: letters).any fun l => (g.short? l).isNone then
          g.plain s token
        else g.cluster s (c :: letters)
    | _ => g.plain s token

/-- Sorts tokens until one of them, where a command may stand, satisfies `stop`; gives the
arguments and the tokens from that one on. -/
def sort (g : Grammar) (stop : String → Bool) (s : State) :
    List String → Except Refusal (Arguments × List String)
  | [] => if s.pending.isSome then .error .misuse else .ok (s.arguments, [])
  | token :: rest =>
      if !s.literal && s.pending.isNone && stop token then .ok (s.arguments, token :: rest)
      else
        match g.take s token.toList with
        | .error refusal => .error refusal
        | .ok s => sort g stop s rest

end Grammar

end TapeTutor.CommandLine
