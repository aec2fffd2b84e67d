import TapeTutor.Proofs.Drawing

/-!
# Where the mark of a memory window stands

The window of a tape is a table, and under the table there is a mark for the cell under the head.
Both are drawn on lines of their own, so nothing but their columns says that the mark belongs to a
cell.  Here the columns are read off the text that is drawn.

* `Text.Occurs` numbers the occurrences of a character on a line, and each of them has one column
  (`Occurs.unique`).
* The rules of a table row stand `fieldWidth + 1` columns apart, whatever is in the fields
  (`occurs_ruled`).  In the line of the mark a cell takes `cellWidth + 1` columns, which is one more.
* The lines of a window are found again in its text (`oneLine_windowLines`).

So the mark runs ahead by one column for every cell in front of its own.  It has one column to
spare: it stands under its cell for the first two cells of the window and for no other
(`mark_under_cell_iff`).
-/

namespace TapeTutor

/-! ## Occurrences on a line -/

namespace Text

/-- At that column of a line stands occurrence number `k` of a character; both are counted from
zero. -/
def Occurs (chars : List Char) (c : Char) (k column : Nat) : Prop :=
  chars[column]? = some c ∧ (chars.take column).count c = k

variable {chars : List Char} {c : Char} {k i j : Nat}

/-- Behind an occurrence one more has been counted. -/
theorem Occurs.count_take_succ (h : Occurs chars c k i) : (chars.take (i + 1)).count c = k + 1 := by
  rw [List.take_add_one, h.1, List.count_append, h.2]
  simp

theorem Occurs.not_lt (hi : Occurs chars c k i) (hj : Occurs chars c k j) : ¬ i < j := by
  intro hlt
  have hle := (List.take_prefix_take_left (l := chars) hlt).sublist.count_le c
  rw [hi.count_take_succ, hj.2] at hle
  omega

/-- An occurrence has one column. -/
theorem Occurs.unique (hi : Occurs chars c k i) (hj : Occurs chars c k j) : i = j := by
  have h := hi.not_lt hj
  have h' := hj.not_lt hi
  omega

theorem Occurs.append (front : List Char) (h : Occurs chars c k i) :
    Occurs (front ++ chars) c (front.count c + k) (front.length + i) := by
  refine ⟨?_, ?_⟩
  · rw [List.getElem?_append_right (Nat.le_add_right _ _), Nat.add_sub_cancel_left, h.1]
  · rw [List.take_length_add_append, List.count_append, h.2]

/-- The first of its kind. -/
theorem occurs_first {front : List Char} (h : c ∉ front) (rest : List Char) :
    Occurs (front ++ c :: rest) c 0 front.length :=
  ⟨by simp, by simp [List.count_eq_zero_of_not_mem h]⟩

/-- A sign that stands alone on a line, behind blanks. -/
theorem occurs_behind_blanks (hblank : c ≠ ' ') (n : Nat) :
    (List.replicate n ' ' ++ [c]).count c = 1 ∧ Occurs (List.replicate n ' ' ++ [c]) c 0 n := by
  have hfront : c ∉ List.replicate n ' ' := fun h => hblank (List.eq_of_mem_replicate h)
  have hfirst := occurs_first hfront []
  rw [List.length_replicate] at hfirst
  refine ⟨?_, hfirst⟩
  rw [List.count_append, List.count_eq_zero_of_not_mem hfront, List.count_singleton_self]

/-- A row of fields with a rule in front and behind each. -/
def ruled (bar : Char) (fields : List (List Char)) : List Char :=
  bar :: fields.flatMap fun field => field ++ [bar]

theorem ruled_cons (bar : Char) (field : List Char) (fields : List (List Char)) :
    ruled bar (field :: fields) = (bar :: field) ++ ruled bar fields := by
  simp [ruled]

/-- **The rules of a row with fields of one width are evenly spaced.** -/
theorem occurs_ruled {bar : Char} {width : Nat} {fields : List (List Char)}
    (hfields : ∀ field ∈ fields, field.length = width ∧ bar ∉ field) (hk : k ≤ fields.length) :
    Occurs (ruled bar fields) bar k ((width + 1) * k) := by
  induction fields generalizing k with
  | nil =>
    obtain rfl : k = 0 := Nat.le_zero.mp hk
    exact ⟨rfl, rfl⟩
  | cons field fields ih =>
    obtain ⟨⟨hwidth, hbar⟩, hrest⟩ := List.forall_mem_cons.mp hfields
    cases k with
    | zero => exact ⟨rfl, rfl⟩
    | succ k =>
      have h := (ih hrest (Nat.le_of_succ_le_succ hk)).append (bar :: field)
      rw [List.count_cons_self, List.count_eq_zero_of_not_mem hbar, List.length_cons, hwidth] at h
      rw [ruled_cons, Nat.mul_succ, Nat.add_comm _ (width + 1), Nat.add_comm k]
      rwa [Nat.zero_add] at h

end Text

/-! ## The memory window -/

namespace Viewer

open Text Settings

variable (v : Viewer)

theorem toList_tableRow (fields : List Span) :
    (Line.render false (tableRow fields)).toList =
      ruled '│' (fields.map fun field => field.text.toList) := by
  rw [Line.toList_render_false, tableRow, List.flatMap_cons, List.flatMap_assoc, ruled,
    List.flatMap_map]
  simp [Span.text]

/-- A byte fills its field, whatever its value, and has no rule in it. -/
theorem valueField_fills (value : UInt8) :
    (v.valueField value).text.toList.length = fieldWidth ∧
      '│' ∉ (v.valueField value).text.toList := by
  have hdigits : (toString value.toNat).length ≤ 3 :=
    (Nat.length_repr_le_iff (by decide)).mpr (Nat.lt_of_lt_of_le value.toNat_lt (by decide))
  refine ⟨?_, notMem_alignRight (by decide) (notMem_toString (by decide) _) _⟩
  rw [valueField, Span.text, String.length_toList, length_alignRight, fieldWidth]
  omega

/-- The mark in a drawn window stands under cell number `k` of it.  There is one mark on the ninth
line, and its column lies strictly between those of the two rules on the third line that delimit the
value of the cell. -/
def MarksCell (text : String) (k : Nat) : Prop :=
  ∃ values marker, (splitLines text.toList)[2]? = some values ∧
    (splitLines text.toList)[8]? = some marker ∧ marker.count '▲' = 1 ∧
    ∃ column left right, Occurs marker '▲' 0 column ∧ Occurs values '│' k left ∧
      Occurs values '│' (k + 1) right ∧ left < column ∧ column < right

variable {v} (memory : Array UInt8) {pointer start : Nat}

/-- The line of the mark, if the head is inside the window. -/
theorem toList_markLine (hfrom : start ≤ pointer) (hto : pointer < start + v.visibleCells) :
    (Line.render false (v.markLine pointer start)).toList =
      List.replicate (6 * (pointer - start) + 3) ' ' ++ ['▲'] := by
  have hmark : "▲".toList = ['▲'] := by decide
  rw [markLine, if_pos ⟨hfrom, hto⟩, Line.toList_render_false]
  simp only [List.flatMap_cons, List.flatMap_nil, markSpan, Span.text, toList_blanks, hmark,
    List.append_nil]

/-- **The columns of a window**: those of the rules on the third line, and that of the one mark on
the ninth. -/
theorem columns_memory (hcolor : v.color = false) (hfrom : start ≤ pointer)
    (hto : pointer < start + v.visibleCells) :
    ∃ values marker,
      (splitLines (v.memory memory pointer start).toList)[2]? = some values ∧
      (splitLines (v.memory memory pointer start).toList)[8]? = some marker ∧
      (∀ j ≤ v.visibleCells, Occurs values '│' j (5 * j)) ∧
      marker.count '▲' = 1 ∧ Occurs marker '▲' 0 (6 * (pointer - start) + 3) := by
  rw [memory_eq, hcolor, splitLines_renderLines (v.oneLine_windowLines memory pointer start)]
  refine ⟨_, _, rfl, rfl, fun j hj => ?_, ?_⟩
  · dsimp only
    rw [toList_tableRow]
    refine @occurs_ruled _ _ fieldWidth _ (fun field hfield => ?_) (by simpa using hj)
    obtain ⟨span, hspan, rfl⟩ := List.mem_map.mp hfield
    obtain ⟨i, _, rfl⟩ := List.mem_map.mp hspan
    exact v.valueField_fills _
  · dsimp only
    rw [toList_markLine hfrom hto]
    exact occurs_behind_blanks (by decide) _

/-- Which cell the mark stands under. -/
theorem marksCell_memory_iff (hcolor : v.color = false) (hfrom : start ≤ pointer)
    (hto : pointer < start + v.visibleCells) {j : Nat} (hj : j < v.visibleCells) :
    MarksCell (v.memory memory pointer start) j ↔
      5 * j < 6 * (pointer - start) + 3 ∧ 6 * (pointer - start) + 3 < 5 * (j + 1) := by
  obtain ⟨values, marker, hvalues, hmarker, hrules, hone, hmark⟩ :=
    columns_memory memory hcolor hfrom hto
  have hleft := hrules j (Nat.le_of_lt hj)
  have hright := hrules (j + 1) hj
  constructor
  · rintro ⟨values', marker', hvalues', hmarker', _, column, left, right, hcolumn, hl, hr, hlt⟩
    cases hvalues.symm.trans hvalues'
    cases hmarker.symm.trans hmarker'
    cases hmark.unique hcolumn
    cases hleft.unique hl
    cases hright.unique hr
    exact hlt
  · intro hlt
    exact ⟨values, marker, hvalues, hmarker, hone, _, _, _, hmark, hleft, hright, hlt⟩

/-- **The mark stands under its cell for the first two cells of a window, and for no other.**  Its
column grows by six from cell to cell and that of the rules by five, so it stands under cell number
`j` if and only if its column lies between the columns `5 * j` and `5 * (j + 1)`. -/
theorem mark_under_cell_iff (v : Viewer) (memory : Array UInt8) (pointer start : Nat)
    (hcolor : v.color = false) (hfrom : start ≤ pointer)
    (hto : pointer < start + v.visibleCells) :
    (MarksCell (v.memory memory pointer start) (pointer - start) ↔ pointer - start < 2) ∧
      ∀ j < v.visibleCells, MarksCell (v.memory memory pointer start) j ↔
        5 * j < 6 * (pointer - start) + 3 ∧ 6 * (pointer - start) + 3 < 5 * (j + 1) := by
  refine ⟨?_, fun j hj => marksCell_memory_iff memory hcolor hfrom hto hj⟩
  rw [marksCell_memory_iff memory hcolor hfrom hto (by omega)]
  omega

/-- The second cell of a window in the middle of a tape has the mark under it. -/
theorem mark_under_cell_iff_second :
    MarksCell (Viewer.memory { visibleCells := 4 } #[1, 20, 255, 3] 3 2) 1 :=
  (mark_under_cell_iff { visibleCells := 4 } #[1, 20, 255, 3] 3 2 rfl (by decide)
    (by decide)).1.mpr (by decide)

/-- The third cell has not: the mark stands under the rule behind it.  For the fourth cell, it stands
under the fifth. -/
theorem mark_misses_third_cell :
    ¬ MarksCell (Viewer.memory { visibleCells := 5 } #[0, 0, 7] 2 0) 2 ∧
      MarksCell (Viewer.memory { visibleCells := 5 } #[0, 0, 7] 3 0) 4 := by
  rw [marksCell_memory_iff _ rfl (by decide) (by decide) (by decide),
    marksCell_memory_iff _ rfl (by decide) (by decide) (by decide)]
  decide

end Viewer

end TapeTutor
