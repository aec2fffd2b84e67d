import TapeTutor.Proofs.Drawing

/-!
# Colour is only decoration

A view with colour is the view without, and escape sequences in between.  That is clear as long as
one looks at spans, of which both are made.  Whoever reads the text has no spans: a sequence is then
what begins with `ESC [` and ends with the next `m`, wherever it comes from.  If the content of a
cell could bring an escape character into the text, the wrong things would be deleted.

* `Text.unpaint` deletes the escape sequences of a text.  It knows nothing of styles.
* A painted text has a sequence in front and one behind, and what is in between is left alone,
  provided that it has no escape character (`unpainted_paint`); and so for spans, for lines and for
  whole drawings (`unpainted_renderLines`).
* The line of the mark is painted before it is trimmed, so it differs with colour in more than its
  pieces; but what is left of it is drawn from the same pieces (`memory_eq`).
* The escape character is no glyph and not the mark, so it is in no view, whatever the bytes on the
  tape are.
-/

namespace TapeTutor

namespace Text

/-! ## Deleting the escape sequences -/

/-- The character that begins an escape sequence. -/
def escape : Char := '\x1b'

/-- The characters of a text that are not in an escape sequence.  A sequence begins with `ESC [` and
goes up to the next `m`; if there is no further `m`, there is no further sequence. -/
def unpainted : List Char → List Char
  | '\x1b' :: '[' :: rest =>
      if 'm' ∈ rest then unpainted (rest.dropWhile (· ≠ 'm')).tail else '\x1b' :: '[' :: rest
  | c :: rest => c :: unpainted rest
  | [] => []
termination_by cs => cs.length
decreasing_by
  · have hle := (List.dropWhile_sublist (l := rest) (· ≠ 'm')).length_le
    simp only [List.length_tail, List.length_cons]
    omega
  · simp

/-- A text without its escape sequences. -/
def unpaint (s : String) : String := String.ofList (unpainted s.toList)

variable {c : Char} {front codes : List Char}

theorem unpainted_nil : unpainted [] = [] := by
  rw [unpainted]

theorem unpainted_cons (hc : c ≠ escape) (rest : List Char) :
    unpainted (c :: rest) = c :: unpainted rest := by
  rw [unpainted.eq_def]
  split
  · next heq =>
    cases heq
    exact absurd rfl hc
  · next heq =>
    cases heq
    rfl
  · next heq => cases heq

/-- What has no escape character is left alone. -/
theorem unpainted_append (h : escape ∉ front) (rest : List Char) :
    unpainted (front ++ rest) = front ++ unpainted rest := by
  induction front with
  | nil => rfl
  | cons c front ih =>
    rw [List.mem_cons, not_or] at h
    rw [List.cons_append, unpainted_cons (Ne.symm h.1), ih h.2, List.cons_append]

/-- A sequence goes. -/
theorem unpainted_sequence (h : 'm' ∉ codes) (rest : List Char) :
    unpainted ('\x1b' :: '[' :: (codes ++ 'm' :: rest)) = unpainted rest := by
  have hskip : (codes ++ 'm' :: rest).dropWhile (· ≠ 'm') = 'm' :: rest := by
    rw [List.dropWhile_append_of_pos, List.dropWhile_cons_of_neg (by simp)]
    intro c hc
    simpa using ne_of_mem_of_not_mem hc h
  rw [unpainted, if_pos (by simp), hskip, List.tail_cons]

example : unpaint "\x1b[1;31mmark\x1b[0m, and no \x1b[2J" = "mark, and no \x1b[2J" := by cbv

end Text

/-! ## Painted texts -/

open Text

/-- The numbers of a style are written in digits, with semicolons between them. -/
theorem Style.notMem_codes {c : Char} (hdigit : c.isDigit = false) (hc : c ≠ ';') (s : Style) :
    c ∉ (";".intercalate (s.codes.map toString)).toList := by
  rw [String.toList_intercalate]
  refine notMem_intercalate (by simpa using hc) fun part hpart => ?_
  obtain ⟨text, htext, rfl⟩ := List.mem_map.mp hpart
  obtain ⟨n, _, rfl⟩ := List.mem_map.mp htext
  exact notMem_toString hdigit n

/-- A painted text without an escape character of its own is found again. -/
theorem unpainted_paint (s : Style) {text : String} (h : escape ∉ text.toList)
    (rest : List Char) :
    unpainted ((s.paint text).toList ++ rest) = text.toList ++ unpainted rest := by
  have hparts : (s.paint text).toList ++ rest =
      '\x1b' :: '[' :: ((";".intercalate (s.codes.map toString)).toList ++ 'm' ::
        (text.toList ++ '\x1b' :: '[' :: (['0'] ++ 'm' :: rest))) := by
    simp [Style.paint]
  rw [hparts, unpainted_sequence (s.notMem_codes (by decide) (by decide)), unpainted_append h,
    unpainted_sequence (by decide)]

theorem unpainted_span {s : Span} (h : escape ∉ s.text.toList) (rest : List Char) :
    unpainted ((s.render true).toList ++ rest) = (s.render false).toList ++ unpainted rest := by
  cases s with
  | plain text => exact unpainted_append h rest
  | styled style text => exact unpainted_paint style h rest

theorem unpainted_line {l : Line} (h : ∀ s ∈ l, escape ∉ s.text.toList) (rest : List Char) :
    unpainted ((Line.render true l).toList ++ rest) =
      (Line.render false l).toList ++ unpainted rest := by
  induction l with
  | nil => rfl
  | cons s l ih =>
    obtain ⟨hs, hl⟩ := List.forall_mem_cons.mp h
    rw [Line.render_cons, Line.render_cons, String.toList_append, String.toList_append,
      List.append_assoc, unpainted_span hs, ih hl, List.append_assoc]

/-- **A drawing without its escape sequences is the drawing without colour.** -/
theorem unpainted_renderLines {lines : List Line}
    (h : ∀ l ∈ lines, ∀ s ∈ l, escape ∉ s.text.toList) :
    unpainted (renderLines true lines).toList = (renderLines false lines).toList := by
  induction lines with
  | nil => exact unpainted_nil
  | cons l lines ih =>
    obtain ⟨hl, hlines⟩ := List.forall_mem_cons.mp h
    have hcons : ∀ color, (renderLines color (l :: lines)).toList =
        (Line.render color l).toList ++ '\n' :: (renderLines color lines).toList := by
      simp [renderLines]
    rw [hcons, hcons, unpainted_line hl, unpainted_cons (by decide), ih hlines]

/-! ## The views with and without colour -/

theorem Line.Drawn.escape_notMem {l : Line} (h : l.Drawn) : ∀ s ∈ l, escape ∉ s.text.toList :=
  fun s hs => (h s hs).notMem (by decide)

namespace Viewer

/-- One text decorates another: it has escape sequences, the other has none, and without them it is
the other. -/
structure Decorates (painted plain : String) : Prop where
  decorated : escape ∈ painted.toList
  bare : escape ∉ plain.toList
  unpaint_eq : unpaint painted = plain

/-- Under a heading, a drawing with colour decorates the drawing without. -/
theorem decorates_renderLines {title : String} {lines : List Line}
    (h : ∀ l ∈ Theme.headingLine title :: lines, ∀ s ∈ l, escape ∉ s.text.toList) :
    Decorates (renderLines true (Theme.headingLine title :: lines))
      (renderLines false (Theme.headingLine title :: lines)) where
  decorated := by
    simp [renderLines, Theme.headingLine, Line.render, Span.render, Style.paint, escape]
  bare := notMem_renderLines (by decide) h
  unpaint_eq := by
    rw [unpaint, unpainted_renderLines h, String.ofList_toList]

/-- **Colour is only decoration.**  Take any tape, head, window, history and program, and a viewer
with any colours that shows any number of cells.  With colour there are escape sequences in what it
shows, without colour there are none; and if one deletes them, what is shown with colour is what is
shown without. -/
theorem color_only_decorates (v : Viewer) (memory : Array UInt8) (pointer start : Nat)
    (history : Array Record) (p : Program) :
    let painted : Viewer := { v with color := true }
    let plain : Viewer := { v with color := false }
    Decorates (painted.memory memory pointer start) (plain.memory memory pointer start) ∧
    Decorates (painted.heatMap memory) (plain.heatMap memory) ∧
    Decorates (painted.stats history) (plain.stats history) ∧
    Decorates (painted.loops p) (plain.loops p) := by
  intro painted plain
  refine ⟨?_, decorates_renderLines fun l hl => (v.drawn_heatLines memory l hl).escape_notMem,
    decorates_renderLines fun l hl => (v.drawn_statsLines history l hl).escape_notMem,
    decorates_renderLines fun l hl => (v.drawn_loopReport p l hl).escape_notMem⟩
  rw [memory_eq, memory_eq]
  exact decorates_renderLines
    (v.notMem_windowLines (by decide) (by decide) memory pointer start)

end Viewer

end TapeTutor
