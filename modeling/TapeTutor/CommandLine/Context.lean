import TapeTutor.CommandLine.Request
import TapeTutor.Journal
import TapeTutor.Report.Caret
import TapeTutor.View.Basic

/-!
# What commands work with

A command does not write by itself.  It gives a `Transcript`: everything to write, in order
and for each of the two streams, the pauses in between, and the exit code.  So what a command
does is a value, and playing it is all that is left to the outside.

A `Context` is what all commands share, and `Supplies` is what they may ask the outside for.
-/

namespace TapeTutor.CommandLine

/-! ## Transcripts -/

/-- One thing to do for the outside. -/
inductive Write where
  /-- Write to the standard output. -/
  | out (text : String)
  /-- Write to the standard error stream. -/
  | err (text : String)
  /-- Wait so many milliseconds. -/
  | pause (milliseconds : Nat)
deriving DecidableEq, Repr

/-- What a command does. -/
structure Transcript where
  writes : List Write
  exit : Nat
deriving DecidableEq, Repr

namespace Transcript

/-- What goes to the standard output. -/
def stdout (t : Transcript) : String :=
  String.join (t.writes.filterMap fun w =>
    match w with
    | .out text => some text
    | _ => none)

/-- What goes to the standard error stream. -/
def stderr (t : Transcript) : String :=
  String.join (t.writes.filterMap fun w =>
    match w with
    | .err text => some text
    | _ => none)

/-- The transcript with something to do first. -/
def after (t : Transcript) (writes : List Write) : Transcript :=
  { t with writes := writes ++ t.writes }

@[simp]
theorem exit_after (t : Transcript) (writes : List Write) : (t.after writes).exit = t.exit := rfl

end Transcript

/-- A line for the standard output. -/
def outLine (text : String) : Write := .out (text ++ "\n")

/-! ## Contexts -/

/-- What all commands share. -/
structure Context where
  /-- The name of the tool, as its messages begin. -/
  name : String
  settings : Settings
  threshold : Threshold
  /-- Whether the standard output takes colour. -/
  colorOut : Bool
  /-- Whether the standard error stream takes colour. -/
  colorErr : Bool
  /-- Whether the standard output is a screen. -/
  screen : Bool

namespace Context

/-- A text in the colour of success, as the output takes it. -/
def good (c : Context) (text : String) : String :=
  (Style.colored c.settings.palette.success).paintIf c.colorOut text

/-- A text in the colour of failure. -/
def bad (c : Context) (text : String) : String :=
  (Style.colored c.settings.palette.error).paintIf c.colorOut text

/-- A text in the colour of labels. -/
def label (c : Context) (text : String) : String :=
  (Style.colored c.settings.palette.ascii).paintIf c.colorOut text

/-- A text in the colour of headings of lists and tasks. -/
def topic (c : Context) (text : String) : String :=
  (Style.colored c.settings.palette.info).paintIf c.colorOut text

/-- The viewer of these settings. -/
def viewer (c : Context) : Viewer := .ofSettings c.settings c.colorOut c.screen

/-- The notes that are severe enough, as lines of the error stream. -/
def notes (c : Context) (notes : List Note) : List Write :=
  (notes.filter fun n => c.threshold.admits n.severity).map fun n => .err n.line

/-- A message of the tool about itself, and the exit code that goes with it. -/
def refuse (c : Context) (message : String) (exit : Nat) : Transcript where
  writes := [.err (c.name ++ ": " ++ message ++ "\n")]
  exit := exit

/-- The configuration of these settings, with the input given as text. -/
def config (c : Context) (input : Option String) : Config :=
  c.settings.config.withText (input.getD "")

end Context

/-! ## Supplies -/

/-- What the outside supplies: files and the standard input. -/
structure Supplies where
  /-- The bytes of a file, or why it cannot be read. -/
  file : String → Except String (List UInt8)
  stdin : List UInt8

/-- Why bytes are refused that should be text. -/
def notUtf8 : String := "stream did not contain valid UTF-8"

/-- Bytes that should be text. -/
def asText (read : Except String (List UInt8)) : Except String String :=
  match read with
  | .error cause => .error cause
  | .ok bytes =>
      match Text.decodeUtf8? bytes with
      | some text => .ok text
      | none => .error notUtf8

end TapeTutor.CommandLine
