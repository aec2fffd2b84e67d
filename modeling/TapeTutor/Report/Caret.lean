import TapeTutor.Interpreter
import TapeTutor.Style.Theme
import TapeTutor.Text.Columns
import TapeTutor.Text.Slice

/-!
# Reports of failed runs

A failed run is reported by its family, its wording and, if it has a position, by a piece of
the cleaned program with a caret under the culprit.

The piece reaches thirty-two characters to either side of the position.  It is cut out of the
text by bytes, so the position has to be turned into bytes first.  A position behind the end of
the text is no error here: the piece is then what is left, possibly nothing.
-/

namespace TapeTutor

/-- The number of characters shown on either side of a position. -/
def caretReach : Nat := 32

/-- A piece of text around a position and the caret line under it; nothing if the text cannot be
cut there. -/
def caretWindow? (text : String) (position : Nat) : Option (String × String) :=
  let start := position - caretReach
  let stop := min (position + caretReach + 1) text.length
  (Text.slice? text (Text.byteOffset text start) (Text.byteOffset text stop)).map fun window =>
    (window, Text.repeated (position - start) " " ++ "^")

/-- The two lines of a piece of text with its caret. -/
def caretLines (text : String) (position : Nat) : String :=
  match caretWindow? text position with
  | some (window, caret) => "  " ++ window ++ "\n  " ++ caret ++ "\n"
  -- Never taken: both ends of the window lie between characters.
  | none => ""

/-- A message that names the instruction it is about, with the caret under it. -/
def caretMessage (message text : String) (position : Nat) : String :=
  message ++ " at instruction " ++ toString position ++ "\n" ++ caretLines text position

/-- How a report introduces a fault. -/
def Fault.Category.title : Fault.Category → String
  | syntactic => "Syntax error"
  | bounds => "Runtime error"
  | resource => "Execution aborted"
  | inner => "Internal error"

/-- Who speaks: the name of the program and a colon, if there is one. -/
def speaker : Option String → String
  | some name => name ++ ": "
  | none => ""

/-- Reports a fault of a source text; `cross` is the sign in front. -/
def Fault.report (f : Fault) (program : Option String) (cross source : String) : String :=
  let message := speaker program ++ cross ++ " " ++ f.category.title ++ ": " ++ f.message
  match f.position? with
  | none => message ++ "\n"
  | some position =>
      -- The wording of a syntax error names the position already.
      if f.category = .syntactic then message ++ "\n" ++ caretLines (strip source) position
      else caretMessage message (strip source) position

/-- The sign in front of a reported fault. -/
def crossSign (color : Bool) (palette : Palette) : String :=
  (Style.boldColored palette.error).paintIf color "✗"

/-- The line with what a failed run had written; nothing if it had written nothing. -/
def partialOutput (color : Bool) (palette : Palette) (output : String) : String :=
  if output.isEmpty then ""
  else (Style.colored palette.ascii).paintIf color "Partial output:" ++ " " ++ output ++ "\n"

end TapeTutor
