import TapeTutor.Style.Color

/-!
# Painted text

A `Style` says how a piece of text looks.  Painting puts an escape sequence in front of the
text that selects the look and one behind it that ends it.

Views are built from `Span`s, pieces of text of which some have a style, and turned into a
string last.  With colour the styled pieces are painted; without, their text stands alone.
Both strings come from the same spans.  Whether they differ in nothing but escape sequences
still depends on the texts: one with an escape character of its own could not be told from
paint.
-/

namespace TapeTutor

/-- How a piece of text looks. -/
structure Style where
  /-- The colour of the letters. -/
  foreground : Option Color := none
  /-- The colour behind them. -/
  background : Option Color := none
  bold : Bool := false
  dimmed : Bool := false
deriving DecidableEq, Repr

namespace Style

/-- Letters of one colour. -/
def colored (c : Color) : Style := { foreground := some c }

/-- Bold letters of one colour. -/
def boldColored (c : Color) : Style := { foreground := some c, bold := true }

/-- The numbers that select a style: weight, then background, then foreground. -/
def codes (s : Style) : List Nat :=
  (if s.bold then [1] else []) ++ (if s.dimmed then [2] else []) ++
    (match s.background with
      | some c => c.background
      | none => []) ++
    (match s.foreground with
      | some c => c.foreground
      | none => [])

/-- A text between the escape sequences that select a style and end it. -/
def paint (s : Style) (text : String) : String :=
  "\x1b[" ++ ";".intercalate (s.codes.map toString) ++ "m" ++ text ++ "\x1b[0m"

/-- A text in a style, painted if colour is on. -/
def paintIf (color : Bool) (s : Style) (text : String) : String :=
  if color then s.paint text else text

@[simp]
theorem paintIf_true (s : Style) (text : String) : s.paintIf true text = s.paint text := rfl

end Style

/-- A piece of text, with or without a style. -/
inductive Span where
  | plain (text : String)
  | styled (style : Style) (text : String)
deriving DecidableEq, Repr

/-- The text of a span without its style. -/
def Span.text : Span → String
  | plain text => text
  | styled _ text => text

/-- A span as a string, painted if colour is on. -/
def Span.render (color : Bool) : Span → String
  | plain text => text
  | styled style text => style.paintIf color text

/-- A line of text, made of spans. -/
abbrev Line := List Span

/-- A line of one plain span. -/
def Line.plain (text : String) : Line := [.plain text]

/-- A line as a string, without its end. -/
def Line.render (color : Bool) (l : Line) : String :=
  String.join (l.map (Span.render color))

/-- Lines as one string, each of them ended. -/
def renderLines (color : Bool) (lines : List Line) : String :=
  String.join (lines.map fun l => Line.render color l ++ "\n")

theorem Line.render_nil (color : Bool) : Line.render color [] = "" := rfl

theorem Line.render_cons (color : Bool) (s : Span) (l : Line) :
    Line.render color (s :: l) = s.render color ++ Line.render color l := by
  simp [Line.render]

theorem Line.render_append (color : Bool) (l l' : Line) :
    Line.render color (l ++ l') = Line.render color l ++ Line.render color l' := by
  simp [Line.render]

@[simp]
theorem Span.render_false (s : Span) : s.render false = s.text := by
  cases s <;> rfl

/-- Without colour a line is the text of its spans. -/
theorem Line.render_false (l : Line) : Line.render false l = String.join (l.map Span.text) :=
  congrArg String.join (List.map_congr_left fun s _ => s.render_false)

end TapeTutor
