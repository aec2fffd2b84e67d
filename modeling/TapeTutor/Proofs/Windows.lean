import TapeTutor.Proofs.Marker
import TapeTutor.Proofs.Reachable

/-!
# Windows contain what they are centred on

A frame of an animation shows two windows: one on the program, around the instruction just executed,
and one on the tape, around the head.  Both begin half a window before their centre, or at the very
beginning if there is not that much before it.  The first one ends where the program ends; behind a
tape there are zeros.

* `ShowsAround` says what a window on the program is: a piece of the program in which one instruction
  stands in parentheses.  A dot of the window may be an instruction as well as a part of the dots
  that stand for what is hidden, so it is said how the text is put together.
* Only the place that is looked at is marked (`flatMap_codeSpan_of_ne`), and brackets of that kind
  are no instructions.  So there is one in parentheses (`showsAround_code`), or none if the place is
  past the end (`paren_notMem_code`).
* An instruction that has just been executed is one of the program that is shown
  (`executed_of_stepped`), and the head is always inside the window that is centred on it.  Neither
  needs the interpreter to be in a state that can be reached.
* Nothing else of a frame has the shape of the mark: it is no glyph, and no byte of the output is
  shown by it (`count_mark_frame`).
-/

namespace TapeTutor

/-! ## What has just been executed -/

namespace Interpreter

open Machine

variable {it it' : Interpreter} {source : String} {r : Record} {output : Array UInt8}

/-- An instruction that has just been executed is one of the program that goes on. -/
theorem executed_of_stepped (h : it.step source = (.stepped r output, it')) :
    ∃ p, it'.program? = some p ∧ p.get? r.ip = some r.instruction := by
  have hrunning : ∀ (it : Interpreter) p, it.session = .running p →
      it.stepRunning p = (.stepped r output, it') →
        it'.program? = some p ∧ p.get? r.ip = some r.instruction := by
    intro it p hs hcall
    rcases step_cases p it.config.input it.machine with
      ⟨hend, _⟩ | ⟨_, f, _, _, hstep⟩ | ⟨i, hi, _, hstep⟩
    · cases hcall.symm.trans (stepRunning_of_halted it hend)
    · cases hcall.symm.trans (stepRunning_of_faulted it hstep)
    · cases hcall.symm.trans (stepRunning_of_executed it hstep)
      exact ⟨by simp only [program?, hs], hi⟩
  rcases call_cases it source with
    ⟨f, _, _, hstep⟩ | ⟨p, _, _, hstep⟩ | ⟨p, hs, hstep⟩ | ⟨_, hstep⟩
  · cases h.symm.trans hstep
  · exact ⟨p, hrunning _ p rfl (hstep.symm.trans h)⟩
  · exact ⟨p, hrunning it p hs (hstep.symm.trans h)⟩
  · cases h.symm.trans hstep

end Interpreter

namespace Viewer

open Text Settings

variable (v : Viewer)

/-! ## The window on the program -/

/-- Dots, for instructions that are hidden. -/
def dots (hidden : List Instruction) : String := if hidden = [] then "" else "..."

/-- The text shows the program around a position, at which `i` stands.

A piece of at most sixty instructions is shown, with `i` in parentheses and nothing else.  There are
thirty instructions before it and twenty-nine behind it, or as many as there are.  Dots tell whether
the program has instructions before or behind the piece. -/
def ShowsAround (p : Program) (position : Nat) (i : Instruction) (text : String) : Prop :=
  ∃ hidden before after rest : List Instruction,
    p.code.toList = hidden ++ before ++ i :: after ++ rest ∧
    hidden.length + before.length = position ∧
    text = dots hidden ++ spell before ++ "(" ++ i.text ++ ")" ++ spell after ++ dots rest ∧
    before.length + 1 + after.length ≤ 60 ∧
    min 30 position ≤ before.length ∧
    min 29 (p.size - (position + 1)) ≤ after.length ∧
    text.toList.count '(' = 1 ∧ text.toList.count ')' = 1

variable {v} {p : Program} {position : Nat}

/-- Away from the position, instructions are shown as they are. -/
theorem flatMap_codeSpan_of_ne {code : List Instruction} {start : Nat}
    (h : ∀ k < code.length, start + k ≠ position) :
    ((code.zipIdx start).flatMap fun a => (v.codeSpan position a.1 a.2).text.toList) =
      (spell code).toList := by
  induction code generalizing start with
  | nil => rfl
  | cons i code ih =>
    have hfirst : start ≠ position := h 0 (by simp)
    have hrest : ∀ k < code.length, start + 1 + k ≠ position := by
      intro k hk
      have hne := h (k + 1) (by simpa using hk)
      omega
    rw [List.zipIdx_cons, List.flatMap_cons, ih hrest, codeSpan, if_neg hfirst]
    simp [Span.text, spell, Instruction.text]

theorem flatMap_ellipsis (hidden : Bool) :
    ((ellipsis hidden).flatMap fun s => s.text.toList) = if hidden then "...".toList else [] := by
  cases hidden <;> rfl

/-- What a view of the program is made of. -/
theorem toList_code (hcolor : v.color = false) :
    (v.code p position).toList =
      (if 0 < codeStart position then "...".toList else []) ++
        ((((p.code.toList.take (codeStop p position)).drop (codeStart position)).zipIdx
          (codeStart position)).flatMap fun a => (v.codeSpan position a.1 a.2).text.toList) ++
        (if codeStop p position < p.size then "...".toList else []) := by
  have hwindow : (p.code.extract (codeStart position) (codeStop p position)).toList =
      (p.code.toList.take (codeStop p position)).drop (codeStart position) := by
    simp [List.extract_eq_take_drop, List.drop_take]
  rw [code, hcolor, Line.toList_render_false, codeLine, List.flatMap_append, List.flatMap_append,
    List.flatMap_map, flatMap_ellipsis, flatMap_ellipsis, hwindow]
  simp only [decide_eq_true_eq]

theorem toList_dots (hidden : List Instruction) :
    (dots hidden).toList = if hidden = [] then [] else "...".toList := by
  unfold dots
  split <;> rfl

/-- A piece of a program between two positions of it, cut at a third one. -/
theorem exists_pieces {code : List Instruction} {start stop : Nat} {i : Instruction}
    (hi : code[position]? = some i) (hstart : start ≤ position) (hstop : position < stop)
    (hsize : stop ≤ code.length) :
    ∃ hidden before after rest, code = hidden ++ before ++ i :: after ++ rest ∧
      (code.take stop).drop start = before ++ i :: after ∧ hidden.length = start ∧
      before.length = position - start ∧ after.length = stop - (position + 1) ∧
      rest.length = code.length - stop := by
  obtain ⟨hlt, hget⟩ := List.getElem?_eq_some_iff.mp hi
  have hshown : code.take stop = code.take position ++ i :: (code.take stop).drop (position + 1) := by
    have hlt' : position < (code.take stop).length := by
      rw [List.length_take]
      omega
    have hcut := List.take_append_drop position (code.take stop)
    rw [List.drop_eq_getElem_cons hlt', List.getElem_take, hget, List.take_take,
      Nat.min_eq_left (Nat.le_of_lt hstop)] at hcut
    exact hcut.symm
  have hpiece : (code.take stop).drop start =
      (code.take position).drop start ++ i :: (code.take stop).drop (position + 1) := by
    rw [hshown, List.drop_append_of_le_length (by rw [List.length_take]; omega), ← hshown]
  have hwhole : code = code.take start ++ (code.take stop).drop start ++ code.drop stop := by
    have hfront : code.take start = (code.take stop).take start := by
      rw [List.take_take, Nat.min_eq_left (by omega)]
    rw [hfront, List.take_append_drop, List.take_append_drop]
  refine ⟨code.take start, (code.take position).drop start, (code.take stop).drop (position + 1),
    code.drop stop, ?_, hpiece, ?_⟩
  · rw [hpiece] at hwhole
    simpa using hwhole
  · simp only [List.length_take, List.length_drop, and_true]
    omega

/-- Parentheses are neither instructions nor dots. -/
theorem paren_notMem {c : Char} (hc : c = '(' ∨ c = ')') (code : List Instruction) :
    c ∉ (spell code).toList ∧ c ∉ (dots code).toList := by
  constructor
  · rw [spell, String.toList_ofList, List.mem_map]
    rintro ⟨i, -, rfl⟩
    revert hc
    cases i <;> decide
  · rw [toList_dots]
    split
    · exact List.not_mem_nil
    · rcases hc with rfl | rfl <;> decide

/-- **A view of the program contains what it is centred on.** -/
theorem showsAround_code (hcolor : v.color = false) {i : Instruction}
    (hi : p.get? position = some i) : ShowsAround p position i (v.code p position) := by
  have hlt : position < p.size := Program.lt_size_of_get? hi
  have hsize : p.size = p.code.toList.length := by simp [Program.size]
  have hstart : codeStart position = position - 30 := rfl
  have hstop : codeStop p position = min (position - 30 + 60) p.size := rfl
  obtain ⟨hidden, before, after, rest, hcode, hpiece, hhidden, hbefore, hafter, hrest⟩ :=
    @exists_pieces position p.code.toList (codeStart position) (codeStop p position) i
      (by rw [← hi, Program.get?, Array.getElem?_toList]) (by omega) (by omega) (by omega)
  have htext : v.code p position =
      dots hidden ++ spell before ++ "(" ++ i.text ++ ")" ++ spell after ++ dots rest := by
    have hmark : v.codeSpan position i position = .plain ("(" ++ i.text ++ ")") := by
      simp [codeSpan, marked, hcolor]
    have hbefore' : ∀ k < before.length, codeStart position + k ≠ position := by omega
    have hafter' : ∀ k < after.length, position + 1 + k ≠ position := by omega
    have hplace : codeStart position + before.length = position := by omega
    rw [← String.toList_inj, toList_code hcolor, hpiece, List.zipIdx_append, List.flatMap_append,
      flatMap_codeSpan_of_ne hbefore', List.zipIdx_cons, List.flatMap_cons, hplace,
      flatMap_codeSpan_of_ne hafter', hmark]
    have hleft : (0 < codeStart position) ↔ hidden ≠ [] := by
      rw [← List.length_pos_iff, hhidden]
    have hright : codeStop p position < p.size ↔ rest ≠ [] := by
      rw [← List.length_pos_iff, hrest]
      omega
    simp [toList_dots, hleft, hright, Span.text]
  have hcount : ∀ c, c = '(' ∨ c = ')' → (v.code p position).toList.count c = 1 := by
    intro c hc
    have hmark : "(".toList.count c + ")".toList.count c = 1 := by
      rcases hc with rfl | rfl <;> decide
    have hspelt : ∀ code, (spell code).toList.count c = 0 := fun code =>
      List.count_eq_zero_of_not_mem (paren_notMem hc code).1
    have hdots : ∀ code, (dots code).toList.count c = 0 := fun code =>
      List.count_eq_zero_of_not_mem (paren_notMem hc code).2
    have hmarked : i.text.toList.count c = 0 := hspelt [i]
    rw [htext]
    simp only [String.toList_append, List.count_append, hspelt, hdots, hmarked]
    omega
  exact ⟨hidden, before, after, rest, hcode, by omega, htext, by omega, by omega, by omega,
    hcount _ (Or.inl rfl), hcount _ (Or.inr rfl)⟩

/-- Past the end of a program there is nothing to be marked. -/
theorem paren_notMem_code (hcolor : v.color = false) (hend : p.size ≤ position) {c : Char}
    (hc : c = '(' ∨ c = ')') : c ∉ (v.code p position).toList := by
  have hdots : c ∉ "...".toList := by
    rcases hc with rfl | rfl <;> decide
  have hshown : ∀ k < ((p.code.toList.take (codeStop p position)).drop (codeStart position)).length,
      codeStart position + k ≠ position := by
    intro k hk
    rw [List.length_drop, List.length_take, Array.length_toList] at hk
    have hsize : p.size = p.code.size := rfl
    omega
  rw [toList_code hcolor, flatMap_codeSpan_of_ne hshown, List.mem_append, List.mem_append, not_or,
    not_or]
  refine ⟨⟨?_, (paren_notMem hc _).1⟩, ?_⟩
  · split
    · exact hdots
    · exact List.not_mem_nil
  · split
    · exact hdots
    · exact List.not_mem_nil

/-! ## What a frame shows -/

theorem drawn_codeLine (v : Viewer) (p : Program) (position : Nat) :
    (v.codeLine p position).Drawn := by
  have hellipsis : ∀ hidden, (ellipsis hidden).Drawn := by
    intro hidden
    cases hidden with
    | false => exact .nil
    | true => exact .single (by decide)
  have hspan : ∀ i place, Drawn (v.codeSpan position i place).text := by
    intro i place
    unfold codeSpan marked
    split
    · split
      · exact i.drawn_text
      · exact ((show Drawn "(" by decide).append i.drawn_text).append (by decide)
    · exact i.drawn_text
  intro s hs
  rw [codeLine, List.mem_append, List.mem_append] at hs
  rcases hs with (hs | hs) | hs
  · exact hellipsis _ s hs
  · obtain ⟨⟨i, place⟩, _, rfl⟩ := List.mem_map.mp hs
    exact hspan i place
  · exact hellipsis _ s hs

/-- No byte is shown by the mark. -/
theorem mark_notMem_showBytes (bytes : Array UInt8) : '▲' ∉ (showBytes bytes).toList := by
  rw [showBytes, String.toList_ofList, List.mem_map]
  rintro ⟨byte, -, hmark⟩
  have hcode := congrArg Char.toNat hmark
  rw [charOfByte_toNat] at hcode
  have hlt := byte.toNat_lt
  rw [hcode] at hlt
  contradiction

/-- The first cell in the window of a frame. -/
def frameStart (v : Viewer) (m : Machine) : Nat := m.head - v.visibleCells / 2

/-- The lines of a frame, without the output. -/
def frameLines (v : Viewer) (p : Program) (m : Machine) (r : Record) : List Line :=
  [.plain (if v.clearScreen then clearing else "") ::
      Theme.headingLine "Brainfuck Execution Visualizer",
    [], Line.plain "Code:", v.codeLine p r.ip,
    [.plain "Current instruction: ", .styled (Theme.instruction r.instruction)
      r.instruction.text],
    Line.plain ("Position: " ++ toString r.ip)] ++
    v.windowLines m.tape m.head (v.frameStart m)

/-- What stands below the lines of a frame. -/
def frameFoot (m : Machine) : String :=
  if (showBytes m.output).isEmpty then "" else "Output so far: " ++ showBytes m.output ++ "\n"

variable {it : Interpreter} {r : Record}

theorem toList_frame (hcolor : v.color = false) (hp : it.program? = some p) :
    (v.frame it r).toList =
      (renderLines false (v.frameLines p it.machine r)).toList ++ (frameFoot it.machine).toList := by
  have hhead : (if v.clearScreen then clearing else "") ++
      renderLines false (v.frameHead it r) ++
        renderLines false (v.windowLines it.machine.tape it.machine.head (v.frameStart it.machine)) =
      renderLines false (v.frameLines p it.machine r) := by
    simp [frameHead, frameLines, hp, renderLines, Line.render, Span.render, String.append_assoc]
  rw [← String.toList_append, ← hhead, frame, memory_eq, display, hcolor]
  rfl

/-- The line of the mark is the only line of a frame that has the mark. -/
theorem exists_frameLines (v : Viewer) (p : Program) (m : Machine) (r : Record) :
    ∃ above below, v.frameLines p m r = above ++ v.markLine m.head (v.frameStart m) :: below ∧
      ∀ l ∈ above ++ below, l.OneLine ∧ ∀ s ∈ l, '▲' ∉ s.text.toList := by
  have hplain : ∀ l : Line, l.Drawn → l.OneLine ∧ ∀ s ∈ l, '▲' ∉ s.text.toList := by
    intro l hl
    exact ⟨hl.oneLine, fun s hs => (hl s hs).notMem (by decide)⟩
  have hinstruction : Line.Drawn [.plain "Current instruction: ",
      .styled (Theme.instruction r.instruction) r.instruction.text] :=
    .pair (show Drawn "Current instruction: " by decide) r.instruction.drawn_text
  have hposition : Line.Drawn (Line.plain ("Position: " ++ toString r.ip)) :=
    .single ((show Drawn "Position: " by decide).append (drawn_toString _))
  have hopening : ∀ s ∈ (.plain (if v.clearScreen then clearing else "") ::
      Theme.headingLine "Brainfuck Execution Visualizer" : Line),
        '\n' ∉ s.text.toList ∧ '▲' ∉ s.text.toList := by
    intro s hs
    rcases List.mem_pair.mp hs with rfl | rfl
    · cases v.clearScreen <;> decide
    · decide
  refine ⟨_ ++ v.tableLines m.tape (v.frameStart m), v.summaryLines m.tape m.head,
    by rw [frameLines, windowLines, List.append_assoc], fun l hl => ?_⟩
  rw [List.mem_append, List.mem_append] at hl
  rcases hl with (hl | hl) | hl
  · simp only [List.mem_cons, List.not_mem_nil, or_false] at hl
    rcases hl with rfl | rfl | rfl | rfl | rfl | rfl
    · exact ⟨fun s hs => (hopening s hs).1, fun s hs => (hopening s hs).2⟩
    · exact hplain _ .nil
    · exact hplain _ (.single (by decide))
    · exact hplain _ (v.drawn_codeLine p r.ip)
    · exact hplain _ hinstruction
    · exact hplain _ hposition
  · exact hplain l (v.drawn_tableLines _ _ l hl)
  · exact hplain l (v.drawn_summaryLines _ _ l hl)

/-- The head is inside the window that is centred on it. -/
theorem head_mem_window (hcells : 1 ≤ v.visibleCells) (m : Machine) :
    v.frameStart m ≤ m.head ∧ m.head < v.frameStart m + v.visibleCells := by
  unfold frameStart
  omega

theorem mark_notMem_frameFoot (m : Machine) : '▲' ∉ (frameFoot m).toList := by
  unfold frameFoot
  split
  · decide
  · simp [mark_notMem_showBytes]

/-- **There is one mark in a frame.** -/
theorem count_mark_frame (hcolor : v.color = false) (hcells : 1 ≤ v.visibleCells)
    (hp : it.program? = some p) : (v.frame it r).toList.count '▲' = 1 := by
  obtain ⟨above, below, hlines, hplain⟩ := v.exists_frameLines p it.machine r
  obtain ⟨hfrom, hto⟩ := head_mem_window hcells it.machine
  have hnone : ∀ lines : List Line, (∀ l ∈ lines, l ∈ above ++ below) →
      (renderLines false lines).toList.count '▲' = 0 := by
    intro lines hsub
    exact List.count_eq_zero_of_not_mem
      (notMem_renderLines (by decide) fun l hl => (hplain l (hsub l hl)).2)
  have hcut : (renderLines false (v.frameLines p it.machine r)).toList =
      (renderLines false above).toList ++
        ((Line.render false (v.markLine it.machine.head (v.frameStart it.machine))).toList ++
          '\n' :: (renderLines false below).toList) := by
    simp [hlines, renderLines]
  rw [toList_frame hcolor hp, hcut, toList_markLine hfrom hto, List.count_append,
    List.count_append, List.count_append, (occurs_behind_blanks (by decide) _).1,
    List.count_cons_of_ne (by decide), hnone above fun l => List.mem_append_left _,
    hnone below fun l => List.mem_append_right _,
    List.count_eq_zero_of_not_mem (mark_notMem_frameFoot it.machine)]

theorem oneLine_frameLines (v : Viewer) (p : Program) (m : Machine) (r : Record) :
    ∀ l ∈ v.frameLines p m r, l.OneLine := by
  obtain ⟨above, below, hlines, hplain⟩ := v.exists_frameLines p m r
  have hmarker : (v.markLine m.head (v.frameStart m)).OneLine :=
    v.oneLine_windowLines m.tape m.head (v.frameStart m) _ (by simp [windowLines])
  rw [hlines]
  intro l hl
  rcases List.mem_append.mp hl with habove | hrest
  · exact (hplain l (List.mem_append_left _ habove)).1
  · rcases List.mem_cons.mp hrest with rfl | hbelow
    · exact hmarker
    · exact (hplain l (List.mem_append_right _ hbelow)).1

/-- What stands on the lines of a frame. -/
theorem rows_frame (hcolor : v.color = false) (hcells : 1 ≤ v.visibleCells)
    (hp : it.program? = some p) :
    let m := it.machine
    let rows := splitLines (v.frame it r).toList
    rows[3]? = some (v.code p r.ip).toList ∧
    rows[12]? = some (ruled '│' ((List.range' (v.frameStart m) v.visibleCells).map fun i =>
      (alignRight 4 (toString i)).toList)) ∧
    rows[14]? = some (List.replicate (6 * (m.head - v.frameStart m) + 3) ' ' ++ ['▲']) ∧
    rows[17]? = some ("Pointer position: " ++ toString m.head).toList := by
  obtain ⟨hfrom, hto⟩ := head_mem_window hcells it.machine
  have hnumbers := toList_tableRow
    ((List.range' (v.frameStart it.machine) v.visibleCells).map v.indexField)
  rw [List.map_map] at hnumbers
  simp only [toList_frame hcolor hp, splitLines_renderLines_append (v.oneLine_frameLines p _ r)]
  refine ⟨?_, congrArg some hnumbers, ?_, ?_⟩
  · rw [code, hcolor]
    rfl
  · rw [← toList_markLine hfrom hto]
    rfl
  · rw [← Line.toList_render_plain]
    rfl

/-! ## The frames of an animation -/

/-- Frame number `k` is drawn of what call number `k` has executed, and of what it has left. -/
def Draws (v : Viewer) (code : String) (it : Interpreter) (frames : List String) : Prop :=
  ∀ k frame, frames[k]? = some frame → ∃ r output, it.outcomeAfter code k = .stepped r output ∧
    frame = v.frame (it.afterSteps code (k + 1)) r

theorem draws_nil (v : Viewer) (code : String) (it : Interpreter) : v.Draws code it [] := by
  simp [Draws]

/-- One call more. -/
theorem Draws.cons {v : Viewer} {code : String} {it it' : Interpreter} {frames : List String}
    {output : Array UInt8} (hstep : it.step code = (.stepped r output, it'))
    (h : v.Draws code it' frames) : v.Draws code it (v.frame it' r :: frames) := by
  obtain rfl : (it.step code).2 = it' := congrArg Prod.snd hstep
  intro k frame hk
  cases k with
  | zero =>
    cases hk
    exact ⟨r, output, congrArg Prod.fst hstep, rfl⟩
  | succ k => exact h k frame hk

/-- **The frames of an animation are those of its calls**, one after the other. -/
theorem frames_animateLoop (v : Viewer) (code : String) (fuel : Nat) (stop : Option Nat)
    (it : Interpreter) (drawn : List String) :
    ∃ frames, (v.animateLoop true code fuel stop it drawn).frames = drawn.reverse ++ frames ∧
      v.Draws code it frames := by
  have hend : ∀ (it : Interpreter) (drawn : List String),
      ∃ frames, drawn.reverse = drawn.reverse ++ frames ∧ v.Draws code it frames :=
    fun it drawn => ⟨[], (List.append_nil _).symm, v.draws_nil code it⟩
  induction fuel generalizing stop it drawn with
  | zero =>
    unfold animateLoop
    split
    · exact hend it drawn
    · exact hend it drawn
  | succ fuel ih =>
    rw [animateLoop]
    split
    · exact hend it drawn
    · split
      · exact hend it drawn
      · rcases hstep : it.step code with ⟨⟨r, output⟩ | ⟨output⟩ | ⟨fault⟩, it'⟩
        · obtain ⟨frames, hframes, hrest⟩ := ih (stop.map (· - 1)) it' (v.frame it' r :: drawn)
          refine ⟨v.frame it' r :: frames, ?_, hrest.cons hstep⟩
          rw [List.reverse_cons, List.append_assoc] at hframes
          exact hframes
        · exact hend it drawn
        · exact hend it drawn

/-! ## Both windows -/

/-- The frame shows an instruction of a program, as the one that has just been executed, and the
machine that it has left.

There is one mark in the whole frame, on the line under the cell numbers.  It stands where the mark
for a cell of the window stands, and this cell is the one under the head. -/
structure FrameShows (v : Viewer) (p : Program) (r : Record) (m : Machine) (frame : String) :
    Prop where
  executed : p.get? r.ip = some r.instruction
  code : ∃ text, (splitLines frame.toList)[3]? = some text.toList ∧
    ShowsAround p r.ip r.instruction text
  one_mark : frame.toList.count '▲' = 1
  cells : (splitLines frame.toList)[12]? =
    some (ruled '│' ((List.range' (v.frameStart m) v.visibleCells).map fun i =>
      (alignRight 4 (toString i)).toList))
  head_shown : (List.range' (v.frameStart m) v.visibleCells)[m.head - v.frameStart m]? = some m.head
  mark : (splitLines frame.toList)[14]? =
    some (List.replicate (6 * (m.head - v.frameStart m) + 3) ' ' ++ ['▲'])
  head : (splitLines frame.toList)[17]? = some ("Pointer position: " ++ toString m.head).toList

/-- A frame after a call that has executed an instruction. -/
theorem frameShows_frame {v : Viewer} (hcolor : v.color = false) (hcells : 1 ≤ v.visibleCells)
    {it it' : Interpreter} {source : String} {r : Record} {output : Array UInt8}
    (h : it.step source = (.stepped r output, it')) :
    ∃ p, it'.program? = some p ∧ v.FrameShows p r it'.machine (v.frame it' r) := by
  obtain ⟨p, hp, hi⟩ := Interpreter.executed_of_stepped h
  obtain ⟨hcode, hnumbers, hmark, hhead⟩ := rows_frame (r := r) hcolor hcells hp
  obtain ⟨hfrom, hto⟩ := head_mem_window hcells it'.machine
  refine ⟨p, hp, hi, ⟨_, hcode, showsAround_code hcolor hi⟩, count_mark_frame hcolor hcells hp,
    hnumbers, ?_, hmark, hhead⟩
  rw [List.getElem?_range' (by omega)]
  congr
  omega

/-- **Windows contain what they are centred on.**

* The view of a program around a position of it shows a piece of at most sixty instructions, with
  the one at the position in parentheses and no other, and with as many around it as there is room
  for.  Dots on a side tell that the program has more there.
* Around a position past the end, nothing is in parentheses.
* Frame number `k` of an animation, whatever the interpreter and whenever it is stopped, shows the
  instruction that call number `k` of `step` executes, and one mark for the head where that call
  leaves it. -/
theorem windows_centred (v : Viewer) (hcolor : v.color = false) :
    (∀ p position, position < p.size →
      ∃ i, p.get? position = some i ∧ ShowsAround p position i (v.code p position)) ∧
    (∀ p position, p.size ≤ position →
      '(' ∉ (v.code p position).toList ∧ ')' ∉ (v.code p position).toList) ∧
    (1 ≤ v.visibleCells → ∀ (it : Interpreter) code stop k frame,
      (v.animate true code stop it).frames[k]? = some frame →
        ∃ p r output, it.outcomeAfter code k = .stepped r output ∧
          (it.afterSteps code (k + 1)).program? = some p ∧
          v.FrameShows p r (it.afterSteps code (k + 1)).machine frame) := by
  refine ⟨fun p position hlt => ?_, fun p position hend => ?_, ?_⟩
  · have hi : p.get? position = some p.code[position] := Array.getElem?_eq_getElem hlt
    exact ⟨_, hi, showsAround_code hcolor hi⟩
  · exact ⟨paren_notMem_code hcolor hend (Or.inl rfl), paren_notMem_code hcolor hend (Or.inr rfl)⟩
  · intro hcells it code stop k frame hk
    obtain ⟨frames, hframes, hdrawn⟩ :=
      v.frames_animateLoop code it.config.maxIterations stop it []
    rw [animate, hframes] at hk
    obtain ⟨r, output, hstepped, rfl⟩ := hdrawn k frame hk
    have hstep : (it.afterSteps code k).step code =
        (.stepped r output, it.afterSteps code (k + 1)) := by
      rw [Interpreter.afterSteps_succ, ← hstepped]
      rfl
    obtain ⟨p, hp, hshows⟩ := frameShows_frame hcolor hcells hstep
    exact ⟨p, r, output, hstepped, hp, hshows⟩

/-- The middle of a program of ninety instructions, and the third frame of a program that runs off a
tape of two cells, with a window of one cell. -/
theorem windows_centred_third_frame :
    (∃ i, Program.get? ⟨Array.replicate 90 .increment, #[]⟩ 40 = some i ∧
      ShowsAround ⟨Array.replicate 90 .increment, #[]⟩ 40 i
        (Viewer.code { visibleCells := 1 } ⟨Array.replicate 90 .increment, #[]⟩ 40)) ∧
    ∃ frame p r, (Viewer.animate { visibleCells := 1 } true "+[>+]" (some 9)
        (.fresh { memorySize := 2, maxIterations := 9 })).frames[2]? = some frame ∧
      r.instruction = .right ∧ r.ip = 2 ∧
      FrameShows { visibleCells := 1 } p r
        ((Interpreter.fresh { memorySize := 2, maxIterations := 9 }).afterSteps "+[>+]" 3).machine
        frame := by
  obtain ⟨hinside, -, hframes⟩ := windows_centred { visibleCells := 1 } rfl
  refine ⟨hinside ⟨Array.replicate 90 .increment, #[]⟩ 40 (by decide), ?_⟩
  have hthird : ∃ frame, (Viewer.animate { visibleCells := 1 } true "+[>+]" (some 9)
      (.fresh { memorySize := 2, maxIterations := 9 })).frames[2]? = some frame := ⟨_, rfl⟩
  obtain ⟨frame, hframe⟩ := hthird
  obtain ⟨p, r, output, hstepped, _, hshows⟩ := hframes (by decide) _ _ _ 2 frame hframe
  cases hstepped
  exact ⟨frame, p, _, hframe, rfl, rfl, hshows⟩

end Viewer

end TapeTutor
