import Mathlib.Data.String.Basic
import TapeTutor.Proofs.Culprit
import TapeTutor.Proofs.Marker
import TapeTutor.Report.Caret

/-!
# What the caret of a report stands under

A report shows a piece of a text and a caret on the line below.  The piece is cut out by bytes, while
the caret is put under it by characters.

* `byteOffset_eq` says what goes from the one to the other: the byte at which a character begins is
  the number of bytes of the characters before it.  So every cut lies between two characters
  (`isValid_byteOffset`), later characters begin at later bytes (`byteOffset_mono`), and what is
  between two cuts is what is between the characters (`slice?_byteOffset`).
* A position far behind the end of the text makes the piece begin behind its end as well.  Both ends
  are then the end of the text (`byteOffset_min`), and the piece is empty.
* A window is the same piece of the text as the list of its characters, and the caret is as far from
  its beginning as the position is (`exact_caretWindow?`).

For the report of a failed execution the text is the cleaned source, and what stands at the position
of a fault is the instruction to blame (`Interpreter.culprit_of_execute_error`).
-/

namespace TapeTutor

/-! ## Bytes and characters -/

namespace Text

variable {text : String} {j k : Nat}

theorem getElem?_charStarts (offset : Nat) (chars : List Char) (k : Nat) :
    (charStarts offset chars)[k]? =
      if k < chars.length then some (offset + String.utf8Len (chars.take k)) else none := by
  induction chars generalizing offset k with
  | nil => rfl
  | cons c chars ih =>
    cases k with
    | zero => rfl
    | succ k =>
      rw [charStarts, List.getElem?_cons_succ, ih]
      simp only [List.length_cons, Nat.add_lt_add_iff_right, List.take_succ_cons,
        String.utf8Len_cons]
      congr 2
      omega

/-- A character begins behind the bytes of all characters before it. -/
theorem byteOffset_eq (text : String) (k : Nat) :
    byteOffset text k = String.utf8Len (text.toList.take k) := by
  rw [byteOffset, getElem?_charStarts]
  split
  · rw [Option.getD_some, Nat.zero_add]
  · next hk =>
    rw [Option.getD_none, List.take_of_length_le (Nat.not_lt.mp hk), String.utf8Len_toList]

/-- Behind the last character there is the end of the text. -/
theorem byteOffset_min (text : String) (k : Nat) :
    byteOffset text (min k text.length) = byteOffset text k := by
  rw [byteOffset_eq, byteOffset_eq, ← String.length_toList, ← List.take_eq_take_min]

theorem byteOffset_mono (h : j ≤ k) : byteOffset text j ≤ byteOffset text k := by
  rw [byteOffset_eq, byteOffset_eq]
  exact String.utf8Len_le_of_prefix (List.take_prefix_take_left h)

/-- **A text can be cut in front of each of its characters.** -/
theorem isValid_byteOffset (text : String) (k : Nat) :
    String.Pos.Raw.IsValid text ⟨byteOffset text k⟩ := by
  rw [String.Pos.Raw.isValid_iff_exists_take_toList]
  exact ⟨k, by rw [byteOffset_eq, String.utf8ByteSize_ofList]⟩

/-- **What is cut out between two characters** are the characters between them. -/
theorem slice?_byteOffset (h : j ≤ k) :
    slice? text (byteOffset text j) (byteOffset text k) =
      some (String.ofList ((text.toList.take k).drop j)) := by
  have hcut : ∀ i, String.Pos.Raw.isValid text ⟨byteOffset text i⟩ := fun i =>
    String.Pos.Raw.isValid_eq_true_iff.mpr (isValid_byteOffset text i)
  have hfront : text.toList.take k = text.toList.take j ++ (text.toList.take k).drop j := by
    have hcut := List.take_append_drop j (text.toList.take k)
    rw [List.take_take, Nat.min_eq_left h] at hcut
    exact hcut.symm
  have hlen : byteOffset text k =
      String.utf8Len (text.toList.take j) + String.utf8Len ((text.toList.take k).drop j) := by
    rw [byteOffset_eq, ← String.utf8Len_append, ← hfront]
  have hpiece := String.extract_of_valid (text.toList.take j) ((text.toList.take k).drop j)
    (text.toList.drop k)
  rw [← hfront, List.take_append_drop, String.ofList_toList, ← hlen, ← byteOffset_eq] at hpiece
  rw [slice?, if_pos ⟨byteOffset_mono h, hcut j, hcut k⟩, hpiece]

end Text

/-! ## Windows -/

open Text Settings

variable {text : String} {position : Nat}

/-- The window is cut out of the text around a position, with the caret under it.

It shows the characters from thirty-two before the position to thirty-two behind it, as far as there
are any.  The caret is alone on its line.  If the text has a character at the position, the caret is
in its column; if not, the window shows all that is left. -/
structure ExactWindow (text : String) (position : Nat) (window caret : String) : Prop where
  shown : window.toList =
    (text.toList.take (min (position + 33) text.length)).drop (position - 32)
  one_caret : caret.toList.count '^' = 1
  under : position < text.length → ∃ column c, Occurs caret.toList '^' 0 column ∧
    window.toList[column]? = some c ∧ text.toList[position]? = some c
  tail : text.length ≤ position → window.toList = text.toList.drop (position - 32)

/-- The window and its caret, by characters. -/
theorem caretWindow?_eq (text : String) (position : Nat) :
    caretWindow? text position =
      some (String.ofList ((text.toList.take (position + 33)).drop (position - 32)),
        repeated (position - (position - 32)) " " ++ "^") := by
  have hends : min (position - 32) text.length ≤ min (position + 33) text.length := by omega
  have hpiece : (text.toList.take (min (position + 33) text.length)).drop
      (min (position - 32) text.length) =
        (text.toList.take (position + 33)).drop (position - 32) := by
    rw [← String.length_toList, ← List.take_eq_take_min]
    rcases Nat.le_total (position - 32) text.toList.length with hle | hlong
    · rw [Nat.min_eq_left hle]
    · rw [Nat.min_eq_right hlong, List.drop_eq_nil_of_le (List.length_take_le' _ _),
        List.drop_eq_nil_of_le (Nat.le_trans (List.length_take_le' _ _) hlong)]
  have hslice := @slice?_byteOffset text _ _ hends
  rw [byteOffset_min text (position - 32), hpiece] at hslice
  exact congrArg (Option.map _) hslice

example : caretWindow? "aé✗😀b" 3 = some ("aé✗😀b", "   ^") := by cbv

/-- Character number `position` of a text is shown where the caret is. -/
theorem getElem?_window (text : String) (position : Nat) :
    ((text.toList.take (position + 33)).drop (position - 32))[position - (position - 32)]? =
      text.toList[position]? := by
  have hplace : position - 32 + (position - (position - 32)) = position := by omega
  rw [List.getElem?_drop, hplace, List.getElem?_take_of_lt (by omega)]

theorem toList_caret (n : Nat) : (repeated n " " ++ "^").toList = List.replicate n ' ' ++ ['^'] := by
  rw [String.toList_append, toList_blanks]
  rfl

/-- **A window is cut out as it should be**, whatever the text and the position. -/
theorem exactWindow (text : String) (position : Nat) :
    ∃ window caret, caretWindow? text position = some (window, caret) ∧
      ExactWindow text position window caret := by
  refine ⟨_, _, caretWindow?_eq text position, ?_, ?_, ?_, ?_⟩
  · rw [String.toList_ofList, ← String.length_toList, ← List.take_eq_take_min]
  · rw [toList_caret]
    exact (occurs_behind_blanks (by decide) _).1
  · intro hlt
    have hget := List.getElem?_eq_getElem (String.length_toList ▸ hlt)
    refine ⟨position - (position - 32), _, ?_, ?_, hget⟩
    · rw [toList_caret]
      exact (occurs_behind_blanks (by decide) _).2
    · rw [String.toList_ofList, getElem?_window, hget]
  · intro hend
    rw [String.toList_ofList, List.take_of_length_le]
    rw [String.length_toList]
    omega

/-! ## Reports -/

/-- The instruction that a fault blames. -/
def Fault.culprit? : Fault → Option Instruction
  | unmatched bracket _ => some bracket.instruction
  | overflow _ _ => some .right
  | underflow _ => some .left
  | ceiling _ => none
  | brokenJump _ => none

/-- The report ends with two lines about a text.  The first of them shows the window around a
position, behind two blanks.  The second has a caret and nothing else, and the caret is in the column
of character number `position` of the text, which is `c`. -/
def PointsAt (report text : String) (position : Nat) (c : Char) : Prop :=
  text.toList[position]? = some c ∧
  ∃ front above below column, splitLines report.toList = front ++ [above, below, []] ∧
    above = "  ".toList ++
      (text.toList.take (min (position + 33) text.length)).drop (position - 32) ∧
    column = 2 + (position - (position - 32)) ∧ above[column]? = some c ∧
    below.count '^' = 1 ∧ Occurs below '^' 0 column

/-- The lines of a report that has a position: whatever comes before, and the window. -/
theorem exists_report_eq {f : Fault} (hf : f.position? = some position) (program : Option String)
    (cross source : String) :
    ∃ message, f.report program cross source =
      message ++ "\n" ++ caretLines (strip source) position := by
  simp only [Fault.report, hf]
  split
  · exact ⟨_, rfl⟩
  · exact ⟨_, rfl⟩

/-- A cleaned source is one line. -/
theorem lineFeed_notMem_strip (source : String) : '\n' ∉ (strip source).toList :=
  (drawn_spell (clean source)).notMem (by decide)

/-- The lines of a window of a text that is one line. -/
theorem splitLines_caretLines (hline : '\n' ∉ text.toList) (position : Nat) :
    splitLines (caretLines text position).toList =
      ["  ".toList ++ (text.toList.take (position + 33)).drop (position - 32),
        List.replicate (2 + (position - (position - 32))) ' ' ++ ['^'], []] := by
  have habove : '\n' ∉ "  ".toList ++ (text.toList.take (position + 33)).drop (position - 32) := by
    rw [List.mem_append, not_or]
    refine ⟨by decide, fun hmem => hline ?_⟩
    exact List.mem_of_mem_take (List.mem_of_mem_drop hmem)
  have hbelow : '\n' ∉ List.replicate (2 + (position - (position - 32))) ' ' ++ ['^'] := by
    simp
  have htext : (caretLines text position).toList =
      ("  ".toList ++ (text.toList.take (position + 33)).drop (position - 32)) ++ '\n' ::
        ((List.replicate (2 + (position - (position - 32))) ' ' ++ ['^']) ++ '\n' :: []) := by
    simp only [caretLines, caretWindow?_eq, String.toList_append, String.toList_ofList,
      toList_blanks, List.replicate_add]
    simp
  rw [htext, splitLines_append habove, splitLines_append hbelow]
  rfl

/-- **A report points at what stands at the position of its fault.** -/
theorem pointsAt_report {f : Fault} (hf : f.position? = some position) {source : String} {c : Char}
    (hc : (strip source).toList[position]? = some c) (program : Option String) (cross : String) :
    PointsAt (f.report program cross source) (strip source) position c := by
  obtain ⟨message, hreport⟩ := exists_report_eq hf program cross source
  have hlines : splitLines (f.report program cross source).toList = splitLines message.toList ++
      splitLines (caretLines (strip source) position).toList := by
    rw [hreport, String.toList_append, String.toList_append, List.append_assoc]
    exact splitLines_append_lineFeed _ _
  rw [splitLines_caretLines (lineFeed_notMem_strip source)] at hlines
  have hcaret := occurs_behind_blanks (show '^' ≠ ' ' by decide) (2 + (position - (position - 32)))
  refine ⟨hc, _, _, _, _, hlines, ?_, rfl, ?_, hcaret⟩
  · rw [← String.length_toList, ← List.take_eq_take_min]
  · rw [List.getElem?_append_right (by simp)]
    simpa [getElem?_window] using hc

namespace Interpreter

open Machine

/-- The fault of a failed execution, if it has a position, blames the instruction that stands there;
and unless the source was refused, the machine has stopped at it. -/
theorem culprit_of_execute_error {it : Interpreter} {source : String} {e : Failure}
    (h : (it.execute source).1 = .error e) (hposition : e.fault.position? = some position) :
    ∃ i, e.fault.culprit? = some i ∧ (strip source).toList[position]? = some i.toChar ∧
      (e.fault.category ≠ .syntactic → (it.execute source).2.machine.ip = position) := by
  rcases exists_path_of_execute_error it h with
    ⟨f, hp, rfl, hleft⟩ | ⟨p, rs, m, f, hp, _, href, rfl, hleft⟩
  · have hfamily := Program.category_of_parse_error hp
    cases f with
    | unmatched bracket place =>
      cases hposition
      refine ⟨bracket.instruction, rfl, ?_, fun hnot => absurd rfl hnot⟩
      rw [getElem?_strip, Program.getElem?_of_unmatched hp, Option.map_some]
    | _ => contradiction
  · rw [hleft]
    rcases href with ⟨_, hstep⟩ | ⟨_, _, rfl⟩
    · obtain ⟨i, hi, hfault⟩ := fault?_of_step_faulted hstep
      rcases fault?_cases hfault with ⟨rfl, rfl, _⟩ | ⟨rfl, rfl, _⟩ | rfl
      · cases hposition
        exact ⟨.right, rfl, getElem?_strip_of_get? hp hi, fun _ => rfl⟩
      · cases hposition
        exact ⟨.left, rfl, getElem?_strip_of_get? hp hi, fun _ => rfl⟩
      · exact absurd hfault (Program.Parsed.fault?_ne_brokenJump ⟨source, hp⟩ hi m.ip)
    · contradiction

end Interpreter

/-- **The caret stands under its character.**

* Any text can be cut around any position.  Both ends are between two characters, the first does not
  come behind the second, and what is cut out is the piece of the text that it should be.
* So the report of a failed execution with a position, whoever reports it and with whatever sign,
  has its caret under the instruction of the cleaned source that has failed: the bracket without a
  partner, or the instruction that would have moved the head off the tape and at which the machine
  has stopped. -/
theorem caret_exact :
    (∀ text position,
      byteOffset text (position - 32) ≤ byteOffset text (min (position + 33) text.length) ∧
      String.Pos.Raw.IsValid text ⟨byteOffset text (position - 32)⟩ ∧
      String.Pos.Raw.IsValid text ⟨byteOffset text (min (position + 33) text.length)⟩ ∧
      ∃ window caret, caretWindow? text position = some (window, caret) ∧
        ExactWindow text position window caret) ∧
    ∀ (it : Interpreter) source e position program cross,
      (it.execute source).1 = .error e → e.fault.position? = some position →
        ∃ i, e.fault.culprit? = some i ∧
          (e.fault.category ≠ .syntactic → (it.execute source).2.machine.ip = position) ∧
          PointsAt (e.fault.report program cross source) (strip source) position i.toChar := by
  refine ⟨fun text position => ?_, ?_⟩
  · refine ⟨?_, isValid_byteOffset text _, isValid_byteOffset text _, exactWindow text position⟩
    rw [← byteOffset_min text (position - 32)]
    exact byteOffset_mono (by omega)
  · intro it source e position program cross h hposition
    obtain ⟨i, hblamed, hstands, hstopped⟩ := Interpreter.culprit_of_execute_error h hposition
    exact ⟨i, hblamed, hstopped, pointsAt_report hposition hstands program cross⟩

/-- A text of characters with one to four bytes, and an execution that fails behind more instructions
than a window can show. -/
theorem caret_exact_underflow :
    (∃ window caret, caretWindow? "aé✗😀b" 3 = some (window, caret) ∧
      ExactWindow "aé✗😀b" 3 window caret) ∧
    ((Interpreter.fresh { memorySize := 2, maxIterations := 99 }).execute
      "été ++++++++++++++++++++++++++++++++++++ < +").1 = .error ⟨.underflow 36, #[], 36⟩ ∧
    PointsAt ((Fault.underflow 36).report (some "bf") "✗"
        "été ++++++++++++++++++++++++++++++++++++ < +")
      (strip "été ++++++++++++++++++++++++++++++++++++ < +") 36 '<' := by
  obtain ⟨hwindows, hreports⟩ := caret_exact
  have hfailed : ((Interpreter.fresh { memorySize := 2, maxIterations := 99 }).execute
      "été ++++++++++++++++++++++++++++++++++++ < +").1 = .error ⟨.underflow 36, #[], 36⟩ := by rfl
  obtain ⟨i, hblamed, _, hpoints⟩ := hreports _ _ _ _ (some "bf") "✗" hfailed rfl
  cases hblamed
  exact ⟨(hwindows "aé✗😀b" 3).2.2.2, hfailed, hpoints⟩

end TapeTutor
