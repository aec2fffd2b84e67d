import TapeTutor.Proofs.SettingsEdits
import TapeTutor.Proofs.Tally
import TapeTutor.View.Loops
import TapeTutor.View.Memory

/-!
# What views are drawn with

A view is a list of lines and a line is a list of pieces of text.  What is drawn are the texts of the
pieces, with a line feed behind every line.  Whoever reads the text has to find the lines again, and
that is possible because nothing that is drawn has a line feed in it.

* `splitLines_renderLines` finds the lines of a drawing, if every piece of it is on one line.
* `Text.IsGlyph` lists the characters that views are drawn with: printable ASCII, rules and shades.
  With the exception of the mark under the head nothing else is ever drawn, whatever the bytes on
  the tape are (`drawn_tableLines`, `drawn_heatLines`, `drawn_statsLines`, `drawn_loopReport`).
* The line of the mark is made cell by cell, painted and then trimmed, so it is a text and no longer
  pieces of one.  What is left of it is known, with paint or without: blanks up to the mark, or
  nothing (`markerLine_eq`).  So a memory window can be drawn with the mark in a piece of its own
  (`memory_eq`).

So there are no line feeds in a view without colour, and no other control characters either.
-/

namespace TapeTutor

/-! ## What padded texts are made of -/

namespace Text

theorem toList_blanks (n : Nat) : (repeated n " ").toList = List.replicate n ' ' := by
  rw [toList_repeated]
  exact List.flatten_replicate_singleton

theorem blank_replicate (n : Nat) : Blank (List.replicate n ' ') := by
  intro c hc
  rw [List.eq_of_mem_replicate hc]
  decide

variable {s : String} {c : Char}

theorem mem_of_mem_repeated {n : Nat} (h : c ∈ (repeated n s).toList) : c ∈ s.toList := by
  rw [toList_repeated] at h
  obtain ⟨part, hpart, hmem⟩ := List.mem_flatten.mp h
  rwa [List.eq_of_mem_replicate hpart] at hmem

theorem notMem_repeated (h : c ∉ s.toList) (n : Nat) : c ∉ (repeated n s).toList :=
  fun hmem => h (mem_of_mem_repeated hmem)

theorem notMem_alignRight (hblank : c ≠ ' ') (h : c ∉ s.toList) (width : Nat) :
    c ∉ (alignRight width s).toList := by
  rw [alignRight, String.toList_append, List.mem_append, not_or]
  exact ⟨notMem_repeated (by simpa using hblank) _, h⟩

/-- A number is written in digits. -/
theorem isDigit_of_mem_toString {n : Nat} (h : c ∈ (toString n).toList) : c.isDigit :=
  Nat.isDigit_of_mem_toDigits (by decide) (by decide) (Nat.toList_repr ▸ h)

theorem notMem_toString (h : c.isDigit = false) (n : Nat) : c ∉ (toString n).toList := by
  intro hmem
  have hdigit := isDigit_of_mem_toString hmem
  rw [h] at hdigit
  contradiction

end Text

open Text

/-! ## Lines of a drawing -/

/-- The text of every piece of a line is on one line. -/
def Line.OneLine (l : Line) : Prop := ∀ s ∈ l, '\n' ∉ s.text.toList

theorem Line.toList_render_false (l : Line) :
    (Line.render false l).toList = l.flatMap fun s => s.text.toList := by
  rw [Line.render_false, String.toList_join, List.flatMap_map]

theorem Line.toList_render_plain (text : String) :
    (Line.render false (Line.plain text)).toList = text.toList := by
  simp [Line.toList_render_false, Line.plain, Span.text]

theorem Line.toList_render_heading (text : String) :
    (Line.render false (Theme.headingLine text)).toList = text.toList := by
  simp [Line.toList_render_false, Theme.headingLine, Span.text]

/-- What no piece of a line has, the line does not have. -/
theorem Line.notMem_render {c : Char} {l : Line} (h : ∀ s ∈ l, c ∉ s.text.toList) :
    c ∉ (Line.render false l).toList := by
  rw [Line.toList_render_false]
  intro hmem
  obtain ⟨s, hs, hc⟩ := List.mem_flatMap.mp hmem
  exact h s hs hc

/-- The lines of a drawing without colour are found again in front of any text. -/
theorem splitLines_renderLines_append {lines : List Line} (h : ∀ l ∈ lines, l.OneLine)
    (text : List Char) :
    Settings.splitLines ((renderLines false lines).toList ++ text) =
      lines.map (fun l => (Line.render false l).toList) ++ Settings.splitLines text := by
  induction lines with
  | nil => rfl
  | cons l rest ih =>
    obtain ⟨hline, hrest⟩ := List.forall_mem_cons.mp h
    have hcons : (renderLines false (l :: rest)).toList =
        (Line.render false l).toList ++ '\n' :: (renderLines false rest).toList := by
      simp [renderLines]
    rw [hcons, List.append_assoc, List.cons_append,
      Settings.splitLines_append (Line.notMem_render hline), ih hrest]
    rfl

theorem splitLines_renderLines {lines : List Line} (h : ∀ l ∈ lines, l.OneLine) :
    Settings.splitLines (renderLines false lines).toList =
      lines.map (fun l => (Line.render false l).toList) ++ [[]] := by
  have hlines := splitLines_renderLines_append h []
  rwa [List.append_nil] at hlines

/-- What no piece of a drawing has, the drawing does not have. -/
theorem notMem_renderLines {c : Char} (hc : c ≠ '\n') {lines : List Line}
    (h : ∀ l ∈ lines, ∀ s ∈ l, c ∉ s.text.toList) : c ∉ (renderLines false lines).toList := by
  intro hmem
  rw [renderLines, String.toList_join, List.flatMap_map] at hmem
  obtain ⟨l, hl, hmem⟩ := List.mem_flatMap.mp hmem
  rw [String.toList_append, List.mem_append] at hmem
  rcases hmem with hmem | hmem
  · exact Line.notMem_render (h l hl) hmem
  · exact hc (List.mem_singleton.mp hmem)

/-! ## Glyphs -/

namespace Text

/-- The characters of views: printable ASCII, rules and shades. -/
def IsGlyph (c : Char) : Prop :=
  (32 ≤ c.toNat ∧ c.toNat < 127) ∨ c ∈ ['│', '─', '├', '┤', '░', '▒', '▓', '█']

instance (c : Char) : Decidable (IsGlyph c) := inferInstanceAs (Decidable (_ ∨ _))

/-- A text that is made of glyphs. -/
def Drawn (s : String) : Prop := ∀ c ∈ s.toList, IsGlyph c

instance (s : String) : Decidable (Drawn s) := List.decidableBAll IsGlyph s.toList

variable {s t : String}

/-- What is no glyph is nowhere in a drawn text. -/
theorem Drawn.notMem {c : Char} (h : Drawn s) (hc : ¬ IsGlyph c) : c ∉ s.toList :=
  fun hmem => hc (h c hmem)

theorem Drawn.append (hs : Drawn s) (ht : Drawn t) : Drawn (s ++ t) := by
  intro c hc
  rw [String.toList_append, List.mem_append] at hc
  exact hc.elim (hs c) (ht c)

theorem Drawn.repeated (h : Drawn s) (n : Nat) : Drawn (repeated n s) := by
  intro c hc
  exact h c (mem_of_mem_repeated hc)

theorem Drawn.alignRight (h : Drawn s) (width : Nat) : Drawn (alignRight width s) :=
  (Drawn.repeated (by decide) _).append h

theorem drawn_toString (n : Nat) : Drawn (toString n) := by
  intro c hc
  obtain ⟨hlow, hhigh⟩ : 48 ≤ c.toNat ∧ c.toNat ≤ 57 :=
    Char.isDigit_iff_toNat.mp (isDigit_of_mem_toString hc)
  exact Or.inl ⟨by omega, by omega⟩

end Text

theorem Instruction.drawn_text (i : Instruction) : Drawn i.text := by
  cases i <;> decide

theorem drawn_spell (code : List Instruction) : Drawn (spell code) := by
  intro c hc
  rw [spell, String.toList_ofList] at hc
  obtain ⟨i, _, rfl⟩ := List.mem_map.mp hc
  exact i.drawn_text _ (by simp [Instruction.text])

/-- The text of every piece of a line is made of glyphs. -/
def Line.Drawn (l : Line) : Prop := ∀ s ∈ l, Text.Drawn s.text

namespace Line.Drawn

variable {l : Line} {s t : Span}

theorem nil : Drawn [] := List.forall_mem_nil _

theorem cons (hs : Text.Drawn s.text) (hl : Drawn l) : Drawn (s :: l) :=
  List.forall_mem_cons.mpr ⟨hs, hl⟩

theorem single (hs : Text.Drawn s.text) : Drawn [s] := nil.cons hs

theorem styled (style : Style) {text : String} (h : Text.Drawn text) : Drawn [.styled style text] :=
  single h

theorem pair (hs : Text.Drawn s.text) (ht : Text.Drawn t.text) : Drawn [s, t] := (single ht).cons hs

theorem oneLine (h : Drawn l) : l.OneLine := fun s hs => (h s hs).notMem (by decide)

end Line.Drawn

namespace Viewer

variable (v : Viewer)

/-! ### The memory window -/

theorem drawn_tableRow {fields : List Span} (h : ∀ field ∈ fields, Drawn field.text) :
    (tableRow fields).Drawn := by
  refine Line.Drawn.cons (by decide) fun s hs => ?_
  obtain ⟨field, hfield, hs⟩ := List.mem_flatMap.mp hs
  rcases List.mem_pair.mp hs with rfl | rfl
  · exact h s hfield
  · decide

/-- A byte is shown by a glyph, whatever its value. -/
theorem drawn_printable (value : UInt8) : Drawn (printable value) := by
  unfold printable
  split
  · next h =>
    intro c hc
    rw [String.toList_singleton, List.mem_singleton] at hc
    have hlow : 32 ≤ value.toNat := UInt8.le_iff_toNat_le.mp h.1
    have hhigh : value.toNat ≤ 126 := UInt8.le_iff_toNat_le.mp h.2
    rw [hc]
    exact Or.inl (by rw [charOfByte_toNat]; omega)
  · decide

/-- **The table of a memory window is made of glyphs.** -/
theorem drawn_tableLines (memory : Array UInt8) (start : Nat) :
    ∀ l ∈ v.tableLines memory start, l.Drawn := by
  have hrule : ∀ n, Line.Drawn [v.framed (repeated n "─")] := by
    intro n
    exact .single (Drawn.repeated (by decide) n)
  have hdivider : ∀ n, Line.Drawn [v.framed ("├" ++ repeated n "─" ++ "┤")] := by
    intro n
    exact .single (((show Drawn "├" by decide).append (Drawn.repeated (by decide) n)).append
      (by decide))
  have hrow : ∀ field : Nat → Span, (∀ i, Drawn (field i).text) →
      Line.Drawn (tableRow ((List.range' start v.visibleCells).map field)) := by
    intro field hfield
    refine drawn_tableRow fun s hs => ?_
    obtain ⟨i, _, rfl⟩ := List.mem_map.mp hs
    exact hfield i
  have hnumber : ∀ n : Nat, Drawn (alignRight fieldWidth (toString n)) := by
    intro n
    exact (drawn_toString n).alignRight _
  simp only [tableLines, List.forall_mem_cons]
  exact ⟨.single (by decide), hrule _, hrow _ fun i => hnumber _, hdivider _,
    hrow _ fun i => (drawn_printable _).alignRight _, hdivider _, hrow _ fun i => hnumber _,
    hrule _, List.forall_mem_nil _⟩

/-- What is said below a window is made of glyphs. -/
theorem drawn_summaryLines (memory : Array UInt8) (pointer : Nat) :
    ∀ l ∈ v.summaryLines memory pointer, l.Drawn := by
  have hcount : ∀ label n, Drawn label → Line.Drawn [v.framed (label ++ toString (n : Nat))] := by
    intro label n hlabel
    exact .single (hlabel.append (drawn_toString n))
  simp only [summaryLines, List.forall_mem_cons]
  exact ⟨.nil, hcount _ _ (by decide), hcount _ _ (by decide), List.forall_mem_nil _⟩

/-! ### The line of the mark -/

section Mark

/-- The mark. -/
def markSpan : Span := .styled (.colored v.palette.pointer) "▲"

/-- The line of the mark in pieces: blanks up to the mark, or nothing if the head is outside the
window. -/
def markLine (pointer start : Nat) : Line :=
  if start ≤ pointer ∧ pointer < start + v.visibleCells then
    [.plain (repeated (6 * (pointer - start) + 3) " "), v.markSpan]
  else []

variable {v} {color : Bool} {pointer start : Nat} {cells : List Nat}

/-- Under cells that the head is not on there are only blanks. -/
theorem toList_markerFields (h : pointer ∉ cells) :
    (Line.render color (cells.flatMap (v.markerField pointer))).toList =
      List.replicate (6 * cells.length) ' ' := by
  induction cells with
  | nil => rfl
  | cons i cells ih =>
    obtain ⟨hi, hcells⟩ := not_or.mp (mt List.mem_cons.mpr h)
    have hfield : (Line.render color (v.markerField pointer i)).toList = List.replicate 6 ' ' := by
      rw [markerField, if_neg (Ne.symm hi)]
      simp [Line.render, Span.render, cellWidth]
    rw [List.flatMap_cons, Line.render_append, String.toList_append, ih hcells, hfield,
      List.length_cons, Nat.mul_succ, Nat.add_comm, List.replicate_add]

/-- The mark is in the middle of its field. -/
theorem toList_markerField_self (v : Viewer) (pointer : Nat) :
    (Line.render color (v.markerField pointer pointer)).toList =
      List.replicate 2 ' ' ++ (v.markSpan.render color).toList ++ List.replicate 3 ' ' := by
  rw [markerField, if_pos rfl]
  simp only [Line.render_cons, Line.render_nil, String.toList_append, Span.render, toList_blanks,
    String.toList_empty, List.append_nil, List.append_assoc]
  rfl

/-- The cells before that of the head, half a cell, the mark, and blanks again. -/
theorem toList_markerFields_window (v : Viewer) (start before behind : Nat) :
    (Line.render color ((List.range' start (before + (behind + 1))).flatMap
        (v.markerField (start + before)))).toList =
      List.replicate (6 * before + 2) ' ' ++ (v.markSpan.render color).toList ++
        List.replicate (3 + 6 * behind) ' ' := by
  have hbefore : start + before ∉ List.range' start before := by
    simp
  have hbehind : start + before ∉ List.range' (start + before + 1) behind := by
    rw [List.mem_range'_1]
    omega
  rw [← List.range'_append_1, List.range'_succ, List.flatMap_append, List.flatMap_cons,
    Line.render_append, Line.render_append, String.toList_append, String.toList_append,
    toList_markerFields hbefore, toList_markerField_self, toList_markerFields hbehind]
  simp only [List.length_range', List.replicate_add, List.append_assoc]

/-- A painted mark does not end with a blank, so trimming stops there. -/
theorem dropBlanksEnd_markSpan (v : Viewer) (front : List Char) (n : Nat) :
    dropBlanksEnd (front ++ (v.markSpan.render color).toList ++ List.replicate n ' ') =
      front ++ (v.markSpan.render color).toList := by
  have hlast : ∃ body last, isBlank last = false ∧
      (v.markSpan.render color).toList = body ++ [last] := by
    cases color with
    | false =>
      have hmark : "▲".toList = [] ++ ['▲'] := by decide
      exact ⟨[], '▲', by decide, hmark⟩
    | true =>
      have hend : "\x1b[0m".toList = "\x1b[0".toList ++ ['m'] := by decide
      rw [markSpan, Span.render, Style.paintIf_true, Style.paint, String.toList_append, hend,
        ← List.append_assoc]
      exact ⟨_, 'm', by decide, rfl⟩
  obtain ⟨body, last, hlast, htext⟩ := hlast
  rw [dropBlanksEnd_append_blank (blank_replicate n), htext, ← List.append_assoc,
    dropBlanksEnd_append_cons hlast]
  rfl

/-- **What is left of the line of the mark**, with colour or without. -/
theorem markerLine_eq (v : Viewer) (pointer start : Nat) :
    v.markerLine pointer start = Line.render v.color (v.markLine pointer start) := by
  have hblank : ((Span.plain " ").render v.color).toList = List.replicate 1 ' ' := by
    simp [Span.render]
  rw [← String.toList_inj, markerLine, trimEnd, String.toList_ofList, markLine, Line.render_cons,
    String.toList_append, hblank]
  split
  · next hin =>
    obtain ⟨before, rfl⟩ : ∃ n, pointer = start + n := ⟨pointer - start, by omega⟩
    obtain ⟨behind, hcells⟩ : ∃ n, v.visibleCells = before + (n + 1) :=
      ⟨v.visibleCells - (before + 1), by omega⟩
    have hcount : 1 + (6 * before + 2) = 6 * before + 3 := by omega
    rw [hcells, toList_markerFields_window, ← List.append_assoc, ← List.append_assoc,
      List.replicate_append_replicate, dropBlanksEnd_markSpan, hcount, Nat.add_sub_cancel_left,
      Line.render_cons, Line.render_cons, Line.render_nil, String.append_empty,
      String.toList_append, Span.render, toList_blanks]
  · next hout =>
    have hnone : pointer ∉ List.range' start v.visibleCells := by
      rwa [List.mem_range'_1]
    rw [toList_markerFields hnone, List.replicate_append_replicate]
    exact dropBlanksEnd_append_blank (blank_replicate _) []

/-- The lines of a memory window, with the mark in a piece of its own. -/
def windowLines (v : Viewer) (memory : Array UInt8) (pointer start : Nat) : List Line :=
  v.tableLines memory start ++ v.markLine pointer start :: v.summaryLines memory pointer

/-- **A memory window is drawn from pieces**, with colour or without. -/
theorem memory_eq (v : Viewer) (memory : Array UInt8) (pointer start : Nat) :
    v.memory memory pointer start = renderLines v.color (v.windowLines memory pointer start) := by
  have hmarker : Line.render v.color (Line.plain (v.markerLine pointer start)) =
      Line.render v.color (v.markLine pointer start) := by
    rw [Line.plain, Line.render_cons, Line.render_nil, String.append_empty, Span.render,
      markerLine_eq]
  simp only [Viewer.memory, display, memoryLines, windowLines, renderLines, List.map_append,
    List.map_cons, hmarker]

end Mark

/-- What is no glyph is in no memory window, unless it is the mark. -/
theorem notMem_windowLines {c : Char} (hglyph : ¬ IsGlyph c) (hmark : c ≠ '▲')
    (memory : Array UInt8) (pointer start : Nat) :
    ∀ l ∈ v.windowLines memory pointer start, ∀ s ∈ l, c ∉ s.text.toList := by
  have hmarker : ∀ s ∈ v.markLine pointer start, c ∉ s.text.toList := by
    intro s hs
    unfold markLine at hs
    split at hs
    · rcases List.mem_pair.mp hs with rfl | rfl
      · exact (Drawn.repeated (by decide) _).notMem hglyph
      · have htext : "▲".toList = ['▲'] := by decide
        rwa [markSpan, Span.text, htext, List.mem_singleton]
    · contradiction
  intro l hl s hs
  rcases List.mem_append.mp hl with hl | hl
  · exact (v.drawn_tableLines memory start l hl s hs).notMem hglyph
  · rcases List.mem_cons.mp hl with rfl | hl
    · exact hmarker s hs
    · exact (v.drawn_summaryLines memory pointer l hl s hs).notMem hglyph

theorem oneLine_windowLines (memory : Array UInt8) (pointer start : Nat) :
    ∀ l ∈ v.windowLines memory pointer start, l.OneLine :=
  v.notMem_windowLines (by decide) (by decide) memory pointer start

/-! ### The other views -/

theorem drawn_heatBlock (value : UInt8) : Drawn (v.heatBlock value).text := by
  unfold heatBlock
  split
  · exact (show Drawn "░░░" by decide)
  · split
    · exact (show Drawn "▒▒▒" by decide)
    · split
      · exact (show Drawn "▓▓▓" by decide)
      · exact (show Drawn "███" by decide)

theorem drawn_intersperse {l : Line} {s : Span} (hl : l.Drawn) (hs : Drawn s.text) :
    Line.Drawn (l.intersperse s) := by
  induction l with
  | nil => exact .nil
  | cons t l ih =>
    obtain ⟨ht, hrest⟩ := List.forall_mem_cons.mp hl
    cases l with
    | nil => exact .single ht
    | cons next l => exact ((ih hrest).cons hs).cons ht

theorem drawn_heatRow (shown : Array UInt8) (i : Nat) : (v.heatRow shown i).Drawn := by
  refine drawn_intersperse (fun s hs => ?_) (by decide)
  obtain ⟨value, _, rfl⟩ := List.mem_map.mp hs
  exact v.drawn_heatBlock value

/-- **A heat map is made of glyphs.** -/
theorem drawn_heatLines (memory : Array UInt8) : ∀ l ∈ v.heatLines memory, l.Drawn := by
  intro l hl
  rw [heatLines, List.mem_append, List.mem_pair] at hl
  rcases hl with (rfl | rfl) | hl
  · exact .single (by decide)
  · exact .styled _ (by decide)
  · obtain ⟨i, _, rfl⟩ := List.mem_map.mp hl
    exact v.drawn_heatRow _ i

theorem drawn_countLine {label : String} (h : Drawn label) (count : Nat) (color : Color) :
    (countLine label count color).Drawn := by
  refine .pair ?_ (Drawn.repeated (by decide) _)
  exact ((((show Drawn "  " by decide).append h).append (by decide)).append
    ((drawn_toString count).alignRight 6)).append (by decide)

/-- **Statistics are made of glyphs.** -/
theorem drawn_statsLines (history : Array Record) : ∀ l ∈ v.statsLines history, l.Drawn := by
  have htotal : ∀ label n, Drawn label → Line.Drawn (Line.plain (label ++ toString (n : Nat))) := by
    intro label n hlabel
    exact .single (hlabel.append (drawn_toString n))
  intro l hl
  simp only [statsLines, List.mem_append, List.mem_pair, List.mem_singleton] at hl
  rcases hl with ((((rfl | rfl) | hl) | rfl) | hl) | rfl | rfl
  · exact .single (by decide)
  · exact .single (by decide)
  · obtain ⟨⟨command, count⟩, hentry, rfl⟩ := List.mem_map.mp hl
    obtain ⟨r, _, rfl⟩ := List.mem_map.mp (Tally.mem_toList_ofList.mp hentry).1
    exact drawn_countLine r.instruction.drawn_text _ _
  · exact .single (by decide)
  · obtain ⟨⟨cell, count⟩, _, rfl⟩ := List.mem_map.mp hl
    exact drawn_countLine ((show Drawn "Cell " by decide).append
      ((drawn_toString cell).alignRight 3)) _ _
  · exact htotal _ _ (by decide)
  · exact htotal _ _ (by decide)

theorem drawn_signed (n : Int) : Drawn (signed n) := by
  unfold signed
  split
  · exact (show Drawn "+" by decide).append (drawn_toString _)
  · exact (show Drawn "-" by decide).append (drawn_toString _)

theorem drawn_preview {text : String} (h : Drawn text) : Drawn (preview text) := by
  unfold preview
  split
  · refine Drawn.append (fun c hc => ?_) (by decide)
    rw [String.toList_ofList] at hc
    exact h c (List.mem_of_mem_take hc)
  · exact h

theorem drawn_guessLine (g : LoopGuess) : (v.guessLine g).Drawn := by
  cases g with
  | balanced => exact .styled _ (by decide)
  | drifting shift =>
    exact .pair (show Drawn "Pointer moves" by decide)
      (((show Drawn " (" by decide).append (drawn_signed shift)).append (by decide))
  | endless => exact .styled _ (by decide)

theorem drawn_loopLines (p : Program) (loop : ListedLoop) (n : Nat) :
    ∀ l ∈ v.loopLines p loop n, l.Drawn := by
  have hindent : Drawn (repeated loop.depth "  ") := Drawn.repeated (by decide) _
  have hdeeper : Drawn (repeated loop.depth "  " ++ "  ") := hindent.append (by decide)
  simp only [loopLines, List.forall_mem_cons]
  refine ⟨.single ?_, .single (hdeeper.append (drawn_preview (drawn_spell _))),
    (v.drawn_guessLine _).cons hdeeper, List.forall_mem_nil _⟩
  exact ((((((hindent.append (by decide)).append (drawn_toString n)).append (by decide)).append
    (drawn_toString _)).append (by decide)).append (drawn_toString _)).append (by decide)

/-- **A report of the loops is made of glyphs.** -/
theorem drawn_loopReport (p : Program) : ∀ l ∈ v.loopReport p, l.Drawn := by
  refine List.forall_mem_cons.mpr ⟨.single (by decide), fun l hl => ?_⟩
  split at hl
  · rw [List.mem_singleton] at hl
    rw [hl]
    exact .single (by decide)
  · obtain ⟨⟨loop, n⟩, _, hl⟩ := List.mem_flatMap.mp hl
    exact v.drawn_loopLines p loop n l hl

end Viewer

end TapeTutor
