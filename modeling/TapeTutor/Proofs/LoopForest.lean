import TapeTutor.Proofs.Drawing
import TapeTutor.Proofs.Matching

/-!
# The report of the loops is the loop forest

The loops of a program form a forest: any two of them are apart or nested.  The report lists them
in the order of their closers and indents each by the number of loops around it.

* The loops that are open at a position are as many as the depth there
  (`Paired.openLoops_eq_depth`): a `[` opens one, a `]` closes one, and nothing else changes their
  number.
* The loops around a loop are those that are open at its `[` (`Paired.loopsAround_loops`), so the
  indentation of an entry is the depth at its opener.
* The loops around a loop are counted while the list is still being made.  That is done in the order
  of the openers, and a loop that opens later is around none of those before it, so none is missed
  (`Program.foldl_listLoop`).
* No two loops close at the same place, so the order of the entries is strict
  (`Paired.pairwise_inClosingOrder`).
* The pass over the code of a loop counts what is in it (`LoopCount.of_eq`).  The brackets neither
  move the head nor count anything down, so the guess is one about the code between them
  (`Matched.guess_loopCode`).

What is left is to find the entries again in the text.  What a line of the report can be is
`Viewer.loops_line_cases`.  The lines of an entry differ in the first character that is not a blank
(`Viewer.Begins`); a title says which loop it is the title of (`Viewer.title_inj`), and a verdict
says which guess it is (`LoopGuess.words_injective`).
-/

namespace TapeTutor

variable {code : List Instruction} {i j k : Nat}

/-! ## Loops that are open -/

namespace Matched

theorem opener_ne (h : Matched code i j) (hk : code[k]? ≠ some .loopOpen) : i ≠ k := by
  rintro rfl
  exact hk h.opener

theorem closer_ne (h : Matched code i j) (hk : code[k]? ≠ some .loopClose) : j ≠ k := by
  rintro rfl
  exact hk h.closer

end Matched

/-- If one member of a list changes sides and no other does, the count grows by one. -/
theorem countP_eq_succ {α : Type} [DecidableEq α] {l : List α} {P Q : α → Bool} {x : α}
    (hnodup : l.Nodup) (hx : x ∈ l) (hP : P x = false) (hQ : Q x = true)
    (h : ∀ a ∈ l, a ≠ x → (Q a = true ↔ P a = true)) : l.countP Q = l.countP P + 1 := by
  have hperm := List.perm_cons_erase hx
  have hrest : (l.erase x).countP Q = (l.erase x).countP P := by
    refine List.countP_congr fun a ha => ?_
    obtain ⟨hne, hmem⟩ := hnodup.mem_erase_iff.mp ha
    exact h a hmem hne
  rw [hperm.countP_eq Q, hperm.countP_eq P, List.countP_cons_of_pos hQ,
    List.countP_cons_of_neg (by simp [hP]), hrest]

/-- The number of loops of a list strictly around a loop. -/
def loopsAround (loops : List (Nat × Nat)) (a : Nat × Nat) : Nat :=
  loops.countP fun outer => outer.1 < a.1 && a.2 < outer.2

namespace Program

variable {p : Program}

theorem nodup_loops (p : Program) : p.loops.Nodup := by
  refine p.pairwise_loops.imp fun hlt heq => ?_
  rw [heq] at hlt
  exact Nat.lt_irrefl _ hlt

/-- The number of loops with one bracket before a position and the other one not. -/
def openLoops (p : Program) (k : Nat) : Nat :=
  p.loops.countP fun a => a.1 < k && k ≤ a.2

/-- Where no bracket of a loop stands, it stays open or not open. -/
theorem isOpen_succ_iff {a : Nat × Nat} (hopener : a.1 ≠ k) (hcloser : a.2 ≠ k) :
    (a.1 < k + 1 && k + 1 ≤ a.2) = true ↔ (a.1 < k && k ≤ a.2) = true := by
  simp only [Bool.and_eq_true, decide_eq_true_eq]
  omega

namespace Paired

theorem openLoops_succ_of_open (h : Paired code p) (hk : code[k]? = some .loopOpen) :
    p.openLoops (k + 1) = p.openLoops k + 1 := by
  obtain ⟨j, hmatched⟩ := h.opener k hk
  refine countP_eq_succ p.nodup_loops (x := (k, j)) (h.mem_loops.mpr hmatched) (by simp)
    (by simpa using Nat.succ_le_of_lt hmatched.lt) fun a ha hne => ?_
  have ha := h.mem_loops.mp ha
  refine isOpen_succ_iff ?_ (ha.closer_ne (by simp [hk]))
  rintro rfl
  exact hne (Prod.ext rfl (ha.closer_unique hmatched))

theorem openLoops_succ_of_close (h : Paired code p) (hk : code[k]? = some .loopClose) :
    p.openLoops k = p.openLoops (k + 1) + 1 := by
  obtain ⟨i, hmatched⟩ := h.closer k hk
  refine countP_eq_succ p.nodup_loops (x := (i, k)) (h.mem_loops.mpr hmatched) (by simp)
    (by simpa using hmatched.lt) fun a ha hne => ?_
  have ha := h.mem_loops.mp ha
  refine (isOpen_succ_iff (ha.opener_ne (by simp [hk])) ?_).symm
  rintro rfl
  exact hne (Prod.ext (ha.opener_unique hmatched) rfl)

theorem openLoops_succ_of_ne (h : Paired code p) (hopen : code[k]? ≠ some .loopOpen)
    (hclose : code[k]? ≠ some .loopClose) : p.openLoops (k + 1) = p.openLoops k := by
  refine List.countP_congr fun a ha => ?_
  have ha := h.mem_loops.mp ha
  exact isOpen_succ_iff (ha.opener_ne hopen) (ha.closer_ne hclose)

/-- **The depth is the number of open loops.** -/
theorem openLoops_eq_depth (h : Paired code p) (k : Nat) :
    (p.openLoops k : Int) = depth code k := by
  induction k with
  | zero => simp [openLoops]
  | succ k ih =>
    cases hc : code[k]? with
    | none =>
      have hle : code.length ≤ k := List.getElem?_eq_none_iff.mp hc
      rw [h.openLoops_succ_of_ne (by simp [hc]) (by simp [hc]), ih, depth_of_length_le hle,
        depth_of_length_le (Nat.le_succ_of_le hle)]
    | some c =>
      have hdepth := depth_succ hc
      cases c with
      | loopOpen =>
        rw [h.openLoops_succ_of_open hc, hdepth, ← ih]
        rfl
      | loopClose =>
        have hcount := h.openLoops_succ_of_close hc
        rw [hdepth, ← ih, hcount, Instruction.rise]
        omega
      | _ =>
        rw [h.openLoops_succ_of_ne (by simp [hc]) (by simp [hc]), hdepth, ih]
        exact (Int.add_zero _).symm

/-- The loops around a loop are those that are open where it begins. -/
theorem loopsAround_loops (h : Paired code p) (hmatched : Matched code i j) :
    (loopsAround p.loops (i, j) : Int) = depth code i := by
  rw [← h.openLoops_eq_depth, loopsAround, openLoops]
  congr 1
  refine List.countP_congr fun a ha => ?_
  have ha := h.mem_loops.mp ha
  have hlt := hmatched.lt
  simp only [Bool.and_eq_true, decide_eq_true_eq]
  constructor
  · rintro ⟨hopener, hcloser⟩
    omega
  · rintro ⟨hopener, hcloser⟩
    have hinside := ha.apart_or_inside hmatched hopener
    omega

end Paired

/-! ## The order of the entries -/

/-- A loop of the report, with its depth among given loops. -/
def listedAmong (loops : List (Nat × Nat)) (a : Nat × Nat) : ListedLoop := ⟨a, loopsAround loops a⟩

/-- The loops around a loop open before it. -/
theorem loopsAround_append_cons {front rest : List (Nat × Nat)} {a : Nat × Nat}
    (h : (front ++ a :: rest).Pairwise fun b c => b.1 < c.1) :
    loopsAround (front ++ a :: rest) a = loopsAround front a := by
  have hbehind : ∀ b ∈ a :: rest, ¬ (b.1 < a.1 && a.2 < b.2) = true := by
    have hlater := (List.pairwise_cons.mp (List.pairwise_append.mp h).2.1).1
    intro b hb
    rcases List.mem_cons.mp hb with rfl | hb
    · simp
    · have hlt := hlater b hb
      simp only [Bool.and_eq_true, decide_eq_true_eq]
      omega
  rw [loopsAround, List.countP_append, List.countP_eq_zero.mpr hbehind, Nat.add_zero, loopsAround]

/-- **Counting while the list is made counts the loops around.**  A loop that comes behind another
one in the order of the openers is not around it, so those listed so far are enough. -/
theorem foldl_listLoop {loops : List (Nat × Nat)} (hsorted : loops.Pairwise fun a b => a.1 < b.1)
    {front rest : List (Nat × Nat)} (h : front ++ rest = loops) :
    rest.foldl listLoop (front.map (listedAmong loops)) = loops.map (listedAmong loops) := by
  induction rest generalizing front with
  | nil => rw [← h, List.append_nil, List.foldl_nil]
  | cons a rest ih =>
    have hcount : loopsAround loops a = loopsAround front a := by
      rw [← h] at hsorted ⊢
      exact loopsAround_append_cons hsorted
    have hstep : listLoop (front.map (listedAmong loops)) a =
        (front ++ [a]).map (listedAmong loops) := by
      rw [listLoop, List.countP_map, List.map_append, List.map_singleton, listedAmong, hcount]
      rfl
    rw [List.foldl_cons, hstep]
    exact ih (by rw [← h, List.append_assoc, List.singleton_append])

theorem listedLoops_eq (p : Program) : p.listedLoops = p.loops.map (listedAmong p.loops) :=
  foldl_listLoop p.pairwise_loops (List.nil_append _)

/-- The loops of a program, those that close first in front. -/
def inClosingOrder (p : Program) : List (Nat × Nat) := p.loops.mergeSort fun a b => a.2 ≤ b.2

/-- Each loop is listed with the number of loops around it. -/
theorem loopsByClose_eq (p : Program) :
    p.loopsByClose = p.inClosingOrder.map (listedAmong p.loops) := by
  rw [loopsByClose, listedLoops_eq, inClosingOrder]
  refine (List.map_mergeSort ?_).symm
  intro a _ b _
  rfl

/-- The report forgets no loop and repeats none. -/
theorem perm_inClosingOrder (p : Program) : p.inClosingOrder.Perm p.loops := List.mergeSort_perm _ _

theorem loopsAround_inClosingOrder (p : Program) (a : Nat × Nat) :
    loopsAround p.inClosingOrder a = loopsAround p.loops a := p.perm_inClosingOrder.countP_eq _

namespace Paired

theorem mem_inClosingOrder (h : Paired code p) {a : Nat × Nat} :
    a ∈ p.inClosingOrder ↔ Matched code a.1 a.2 := by
  rw [p.perm_inClosingOrder.mem_iff, h.mem_loops]

/-- Each loop closes behind those in front of it. -/
theorem pairwise_inClosingOrder (h : Paired code p) :
    p.inClosingOrder.Pairwise fun a b => a.2 < b.2 := by
  have hsorted : p.inClosingOrder.Pairwise fun a b => decide (a.2 ≤ b.2) = true :=
    List.pairwise_mergeSort (by simp only [decide_eq_true_eq]; omega)
      (by simp only [Bool.or_eq_true, decide_eq_true_eq]; omega) _
  have hnodup : p.inClosingOrder.Nodup := p.perm_inClosingOrder.nodup_iff.mpr p.nodup_loops
  refine (hsorted.and hnodup).imp_of_mem fun {a b} ha hb => ?_
  rintro ⟨hle, hne⟩
  refine Nat.lt_of_le_of_ne (of_decide_eq_true hle) fun heq => hne ?_
  have ha := h.mem_inClosingOrder.mp ha
  have hb := h.mem_inClosingOrder.mp hb
  rw [← heq] at hb
  exact Prod.ext (ha.opener_unique hb) heq

end Paired

end Program

/-! ## The code of a loop -/

/-- The instructions strictly between two positions. -/
def between (code : List Instruction) (i j : Nat) : List Instruction := (code.take j).drop (i + 1)

namespace Matched

variable {p : Program}

/-- The code of a loop is its two brackets and what is between them. -/
theorem loopCode_eq (h : Matched code i j) (hcode : p.code = code.toArray) :
    p.loopCode (i, j) = .loopOpen :: (between code i j ++ [.loopClose]) := by
  have hlt := h.lt
  obtain ⟨hj, hcloser⟩ := List.getElem?_eq_some_iff.mp h.closer
  have hopener : (code.take j)[i]? = some .loopOpen := by
    rw [List.getElem?_take_of_lt hlt, h.opener]
  obtain ⟨hi, hopener⟩ := List.getElem?_eq_some_iff.mp hopener
  have hslice : p.loopCode (i, j) = (code.take (j + 1)).drop i := by
    rw [Program.loopCode, hcode]
    simp [List.extract_eq_take_drop, List.drop_take]
  rw [hslice, List.take_succ_eq_append_getElem hj, hcloser,
    List.drop_append_of_le_length (by omega), List.drop_eq_getElem_cons hi, hopener]
  rfl

end Matched

/-! ## The guess -/

/-- The pass over a piece of code adds what there is in it. -/
theorem LoopCount.foldl_add (code : List Instruction) (n : LoopCount) :
    code.foldl add n = ⟨n.shift + (code.count .right - code.count .left),
      n.decrements + code.count .decrement⟩ := by
  induction code generalizing n with
  | nil => simp
  | cons i code ih =>
    rw [List.foldl_cons, ih]
    cases i <;> simp [add] <;> omega

/-- **The pass counts.** -/
theorem LoopCount.of_eq (code : List Instruction) :
    LoopCount.of code = ⟨code.count .right - code.count .left, code.count .decrement⟩ := by
  rw [LoopCount.of, foldl_add, Int.zero_add, Nat.zero_add]

/-- The brackets of a loop do not count for the guess about it. -/
theorem Matched.guess_loopCode {p : Program} (h : Matched code i j)
    (hcode : p.code = code.toArray) :
    LoopGuess.of (p.loopCode (i, j)) = LoopGuess.of (between code i j) := by
  have hcount : LoopCount.of (p.loopCode (i, j)) = LoopCount.of (between code i j) := by
    simp [LoopCount.of_eq, h.loopCode_eq hcode, List.count_append]
  rw [LoopGuess.of, hcount, LoopGuess.of]

namespace LoopGuess

/-- The guess by what there is in the code. -/
theorem of_eq (code : List Instruction) :
    let shift : Int := (code.count .right : Int) - code.count .left
    LoopGuess.of code =
      if shift ≠ 0 then .drifting shift else if .decrement ∈ code then .balanced else .endless := by
  intro shift
  rw [LoopGuess.of, LoopCount.of_eq]
  by_cases hshift : shift = 0
  · simp [shift, hshift, List.count_pos_iff]
  · simp [shift, hshift]

theorem of_eq_drifting_iff {s : Int} :
    LoopGuess.of code = .drifting s ↔
      (code.count .right : Int) - code.count .left ≠ 0 ∧
        s = (code.count .right : Int) - code.count .left := by
  rw [of_eq]
  split
  · next h => simp [h, eq_comm]
  · next h => split <;> simp [h]

theorem of_eq_balanced_iff :
    LoopGuess.of code = .balanced ↔
      (code.count .right : Int) - code.count .left = 0 ∧ .decrement ∈ code := by
  rw [of_eq]
  split
  · next h => simp [h]
  · next h => split <;> simp_all

theorem of_eq_endless_iff :
    LoopGuess.of code = .endless ↔
      (code.count .right : Int) - code.count .left = 0 ∧ .decrement ∉ code := by
  rw [of_eq]
  split
  · next h => simp [h]
  · next h => split <;> simp_all

/-! ## Texts that tell loops and guesses apart -/

/-- A guess in words. -/
def words : LoopGuess → String
  | .balanced => "Balanced loop (likely terminates)"
  | .drifting shift => "Pointer moves (" ++ Viewer.signed shift ++ ")"
  | .endless => "Potential infinite loop"

@[simp] theorem words_balanced : words .balanced = "Balanced loop (likely terminates)" := rfl

@[simp] theorem words_drifting (shift : Int) :
    words (.drifting shift) = "Pointer moves (" ++ Viewer.signed shift ++ ")" := rfl

@[simp] theorem words_endless : words .endless = "Potential infinite loop" := rfl

end LoopGuess

theorem Text.notMem_toDigits {c : Char} (h : c.isDigit = false) (n : Nat) :
    c ∉ Nat.toDigits 10 n := by
  simpa using notMem_toString h n

/-- Numbers are told apart by their digits. -/
theorem Text.toList_toString_injective : Function.Injective fun n : Nat => (toString n).toList := by
  intro m n h
  have hdigits : Nat.toDigits 10 m = Nat.toDigits 10 n := by
    rw [← Nat.toList_repr, ← Nat.toList_repr]
    exact h
  rw [← @Nat.ofDigitChars_ten_toDigits m, hdigits, Nat.ofDigitChars_ten_toDigits]

theorem Viewer.toList_signed (n : Int) :
    (signed n).toList = (if 0 ≤ n then '+' else '-') :: (toString n.natAbs).toList := by
  unfold signed
  split <;> simp

theorem Viewer.signed_injective : Function.Injective Viewer.signed := by
  intro m n h
  have hchars := congrArg String.toList h
  rw [toList_signed, toList_signed, List.cons.injEq] at hchars
  obtain ⟨hsign, hdigits⟩ := hchars
  have habs : m.natAbs = n.natAbs := Text.toList_toString_injective hdigits
  split at hsign <;> split at hsign
  · omega
  · contradiction
  · contradiction
  · omega

theorem LoopGuess.words_injective : Function.Injective LoopGuess.words := by
  intro g g' h
  have hlist := congrArg String.toList h
  cases g <;> cases g' <;> simp at hlist ⊢
  · exact Viewer.signed_injective (String.toList_inj.mp hlist)

namespace Viewer

open Text Settings

/-- Two blanks for each level. -/
def indentation (d : Nat) : List Char := List.replicate (2 * d) ' '

theorem toList_repeated_blanks (d : Nat) : (repeated d "  ").toList = indentation d := by
  induction d with
  | zero => rfl
  | succ d ih =>
    rw [repeated_succ, String.toList_append, ih, indentation, indentation, Nat.mul_succ,
      Nat.add_comm _ 2, List.replicate_add]
    rfl

theorem indentation_succ (d : Nat) : indentation (d + 1) = indentation d ++ [' ', ' '] := by
  rw [indentation, indentation, Nat.mul_succ, List.replicate_add]
  rfl

/-- Where the text behind an indentation begins, and what it is. -/
theorem indentation_append_cons_inj {d d' : Nat} {c c' : Char} {cs cs' : List Char} (hc : c ≠ ' ')
    (hc' : c' ≠ ' ') (h : indentation d ++ c :: cs = indentation d' ++ c' :: cs') :
    d = d' ∧ c = c' ∧ cs = cs' := by
  have hdrop : ∀ (n : Nat) {c : Char} (cs : List Char), c ≠ ' ' →
      (indentation n ++ c :: cs).dropWhile (· == ' ') = c :: cs := by
    intro n c cs hc
    rw [List.dropWhile_append_of_pos, List.dropWhile_cons_of_neg (by simpa using hc)]
    simp [indentation]
  have htext : c :: cs = c' :: cs' := by
    rw [← hdrop d cs hc, h, hdrop d' cs' hc']
  have hlength := congrArg List.length h
  rw [List.length_append, List.length_append, htext, indentation, indentation,
    List.length_replicate, List.length_replicate] at hlength
  exact ⟨by omega, List.cons.inj htext⟩

/-- The title of loop number `n`, at `d` levels. -/
def title (d n : Nat) (a : Nat × Nat) : List Char :=
  indentation d ++
    ("Loop " ++ toString n ++ ": [" ++ toString a.1 ++ "-" ++ toString a.2 ++ "]").toList

theorem title_eq (d n : Nat) (a : Nat × Nat) : title d n a =
    indentation d ++ 'L' :: ("oop ".toList ++ (toString n).toList ++ ':' ::
      (" [".toList ++ (toString a.1).toList ++ '-' :: ((toString a.2).toList ++ [']']))) := by
  simp [title]

/-- A title says which loop it is the title of. -/
theorem title_inj {d d' n n' : Nat} {a a' : Nat × Nat} (h : title d n a = title d' n' a') :
    d = d' ∧ n = n' ∧ a = a' := by
  rw [title_eq, title_eq] at h
  obtain ⟨hd, -, h⟩ := indentation_append_cons_inj (by decide) (by decide) h
  -- the colon stands behind the number, and the dash between the positions
  have hcolon : ∀ m, ':' ∉ Nat.toDigits 10 m := notMem_toDigits (by decide)
  have hdash : ∀ m, '-' ∉ Nat.toDigits 10 m := notMem_toDigits (by decide)
  rw [List.append_cons_inj_of_notMem (by simp [hcolon]) (by simp [hcolon]),
    List.append_cons_inj_of_notMem (by simp [hdash]) (by simp [hdash])] at h
  obtain ⟨hn, -, hi, -, hj⟩ := h
  have hn := toList_toString_injective (List.append_cancel_left hn)
  have hi := toList_toString_injective (List.append_cancel_left hi)
  have hj := toList_toString_injective (List.append_cancel_right hj)
  exact ⟨hd, hn, Prod.ext hi hj⟩

/-! ## The text of the report -/

/-- Where the parts stand of which a list is made, if they have the same length. -/
theorem getElem?_flatMap_of_length {α β : Type} {f : α → List β} {m : Nat}
    (hf : ∀ a, (f a).length = m) (l : List α) (k : Nat) {r : Nat} (hr : r < m) :
    (l.flatMap f)[m * k + r]? = l[k]?.bind fun a => (f a)[r]? := by
  induction l generalizing k with
  | nil => simp
  | cons a l ih =>
    rw [List.flatMap_cons]
    cases k with
    | zero =>
      rw [Nat.mul_zero, Nat.zero_add, List.getElem?_append_left (by rw [hf]; exact hr)]
      rfl
    | succ k =>
      have hindex : m * (k + 1) + r = (f a).length + (m * k + r) := by
        rw [hf, Nat.mul_succ]
        omega
      rw [hindex, List.getElem?_append_right (Nat.le_add_right _ _), Nat.add_sub_cancel_left, ih]
      rfl

variable {v : Viewer} {p : Program} {a : Nat × Nat} {n : Nat}

/-- The lines of an entry without colour: title, preview and verdict. -/
def entry (p : Program) (a : Nat × Nat) (n : Nat) : List (List Char) :=
  [title (loopsAround p.loops a) n a,
    indentation (loopsAround p.loops a + 1) ++ (preview (spell (p.loopCode a))).toList,
    indentation (loopsAround p.loops a + 1) ++ (LoopGuess.of (p.loopCode a)).words.toList]

theorem map_render_loopLines (v : Viewer) (p : Program) (a : Nat × Nat) (n : Nat) :
    (v.loopLines p (Program.listedAmong p.loops a) n).map (fun l => (Line.render false l).toList) =
      entry p a n := by
  have hguess : ∀ g, (v.guessLine g).flatMap (fun s => s.text.toList) = g.words.toList := by
    intro g
    cases g <;> simp [guessLine, Span.text]
  simp only [loopLines, Program.listedAmong, List.map_cons, List.map_nil, Line.toList_render_false,
    entry, title, indentation_succ, ← toList_repeated_blanks, List.flatMap_cons, hguess]
  simp [Line.plain, Span.text]

/-- The lines of a report without colour are found again in its text. -/
theorem splitLines_loopReport (v : Viewer) (p : Program) (hcolor : v.color = false) :
    splitLines (v.loops p).toList =
      (v.loopReport p).map (fun l => (Line.render false l).toList) ++ [[]] := by
  rw [loops, display, hcolor]
  exact splitLines_renderLines fun l hl => (v.drawn_loopReport p l hl).oneLine

/-- The lines of a report without loops. -/
theorem splitLines_loops_of_nil (hcolor : v.color = false) (hnil : p.inClosingOrder = []) :
    splitLines (v.loops p).toList =
      ["Loop Structure:".toList, "No loops found".toList, []] := by
  rw [splitLines_loopReport v p hcolor]
  simp [loopReport, Program.loopsByClose_eq, hnil, Line.toList_render_false, Theme.headingLine,
    Line.plain, Span.text]

/-- The lines of a report with loops. -/
theorem splitLines_loops (hcolor : v.color = false) (hne : p.inClosingOrder ≠ []) :
    splitLines (v.loops p).toList =
      "Loop Structure:".toList ::
        ((p.inClosingOrder.zipIdx 1).flatMap (fun a => entry p a.1 a.2) ++ [[]]) := by
  have hreport : v.loopReport p = Theme.headingLine "Loop Structure:" ::
      (p.inClosingOrder.zipIdx 1).flatMap fun a =>
        v.loopLines p (Program.listedAmong p.loops a.1) a.2 := by
    unfold loopReport
    rw [Program.loopsByClose_eq]
    split
    · next hnil => exact absurd (List.map_eq_nil_iff.mp hnil) hne
    · rw [List.zipIdx_map, List.flatMap_map]
      rfl
  rw [splitLines_loopReport v p hcolor, hreport]
  simp only [List.map_cons, List.map_flatMap, map_render_loopLines, Line.toList_render_heading,
    List.cons_append]

theorem getElem?_entries (p : Program) (k : Nat) {r : Nat} (hr : r < 3) :
    ((p.inClosingOrder.zipIdx 1).flatMap fun a => entry p a.1 a.2)[3 * k + r]? =
      p.inClosingOrder[k]?.bind fun a => (entry p a (k + 1))[r]? := by
  have hlength : ∀ a : (Nat × Nat) × Nat, (entry p a.1 a.2).length = 3 := fun _ => rfl
  rw [getElem?_flatMap_of_length hlength _ k hr, List.getElem?_zipIdx, Nat.add_comm 1 k]
  cases p.inClosingOrder[k]? <;> rfl

/-- Where the lines of an entry stand. -/
theorem getElem?_loops (hcolor : v.color = false) (ha : p.inClosingOrder[k]? = some a) {r : Nat}
    (hr : r < 3) :
    (splitLines (v.loops p).toList)[3 * k + r + 1]? = (entry p a (k + 1))[r]? := by
  have hne : p.inClosingOrder ≠ [] := List.ne_nil_of_mem (List.mem_of_getElem? ha)
  have hentry := getElem?_entries p k hr
  rw [ha, Option.bind_some] at hentry
  have hlt : r < (entry p a (k + 1)).length := hr
  rw [splitLines_loops hcolor hne, List.getElem?_cons_succ, List.getElem?_append_left, hentry]
  exact (List.getElem?_eq_some_iff.mp (hentry.trans (List.getElem?_eq_getElem hlt))).1

/-- **What a line of the report can be.** -/
theorem loops_line_cases (hcolor : v.color = false) {row : Nat} {line : List Char}
    (hrow : (splitLines (v.loops p).toList)[row]? = some line) :
    line = "Loop Structure:".toList ∨ line = [] ∨
      (p.inClosingOrder = [] ∧ line = "No loops found".toList) ∨
      ∃ k r a, p.inClosingOrder[k]? = some a ∧ row = 3 * k + r + 1 ∧
        (entry p a (k + 1))[r]? = some line := by
  by_cases hnil : p.inClosingOrder = []
  · have hmem := List.mem_of_getElem? hrow
    rw [splitLines_loops_of_nil hcolor hnil] at hmem
    simp only [List.mem_cons, List.not_mem_nil, or_false] at hmem
    rcases hmem with hline | hline | hline
    · exact Or.inl hline
    · exact Or.inr (Or.inr (Or.inl ⟨hnil, hline⟩))
    · exact Or.inr (Or.inl hline)
  · cases row with
    | zero =>
      rw [splitLines_loops hcolor hnil, List.getElem?_cons_zero, Option.some.injEq] at hrow
      exact Or.inl hrow.symm
    | succ s =>
      have hindex : s = 3 * (s / 3) + s % 3 := (Nat.div_add_mod s 3).symm
      cases ha : p.inClosingOrder[s / 3]? with
      | some a =>
        rw [hindex, getElem?_loops hcolor ha (Nat.mod_lt s (by decide))] at hrow
        refine Or.inr (Or.inr (Or.inr ⟨s / 3, s % 3, a, ha, ?_, hrow⟩))
        omega
      | none =>
        -- behind the last entry there is only the end of the text
        have hend := getElem?_entries p (s / 3) (Nat.mod_lt s (by decide))
        rw [ha, Option.bind_none, ← hindex] at hend
        rw [splitLines_loops hcolor hnil, List.getElem?_cons_succ,
          List.getElem?_append_right (List.getElem?_eq_none_iff.mp hend)] at hrow
        exact Or.inr (Or.inl (List.mem_singleton.mp (List.mem_of_getElem? hrow)))

/-! ## Finding the entries again -/

/-- The first character of a line that is not a blank. -/
def Begins (line : List Char) (c : Char) : Prop :=
  c ≠ ' ' ∧ ∃ d cs, line = indentation d ++ c :: cs

theorem Begins.unique {line : List Char} {c c' : Char} (h : Begins line c) (h' : Begins line c') :
    c = c' := by
  obtain ⟨hc, d, cs, rfl⟩ := h
  obtain ⟨hc', d', cs', heq⟩ := h'
  exact (indentation_append_cons_inj hc hc' heq).2.1

theorem begins_title (d n : Nat) (a : Nat × Nat) : Begins (title d n a) 'L' :=
  ⟨by decide, d, _, title_eq d n a⟩

theorem begins_words (d : Nat) (g : LoopGuess) :
    ∃ c ∈ ['B', 'P'], Begins (indentation d ++ g.words.toList) c := by
  cases g with
  | balanced => exact ⟨'B', by decide, by decide, d, _, rfl⟩
  | drifting shift =>
    refine ⟨'P', by decide, by decide, d, ?_⟩
    refine ⟨"ointer moves (".toList ++ (signed shift ++ ")").toList, ?_⟩
    simp
  | endless => exact ⟨'P', by decide, by decide, d, _, rfl⟩

/-- A preview begins with the opener, also if it has been cut. -/
theorem begins_preview (d : Nat) (code : List Instruction) :
    Begins (indentation d ++ (preview (spell (.loopOpen :: code))).toList) '[' := by
  have hspell : (spell (.loopOpen :: code)).toList = '[' :: (spell code).toList := by
    simp [spell, Instruction.toChar]
  refine ⟨by decide, d, ?_⟩
  unfold preview
  split
  · refine ⟨(spell code).toList.take 36 ++ "...".toList, ?_⟩
    rw [String.toList_append, String.toList_ofList, hspell, List.take_succ_cons, List.cons_append]
  · exact ⟨(spell code).toList, by rw [hspell]⟩

/-- Only the first line of an entry begins as a title does. -/
theorem entry_cases {body : List Instruction} (hcode : p.loopCode a = .loopOpen :: body) {r : Nat}
    {line : List Char} (h : (entry p a n)[r]? = some line) :
    (r = 0 ∧ line = title (loopsAround p.loops a) n a) ∨ ∃ c ∈ ['[', 'B', 'P'], Begins line c := by
  match r with
  | 0 => exact Or.inl ⟨rfl, (Option.some.inj h).symm⟩
  | 1 =>
    rw [← Option.some.inj h, hcode]
    exact Or.inr ⟨'[', by decide, begins_preview _ _⟩
  | 2 =>
    rw [← Option.some.inj h]
    obtain ⟨c, hc, hbegins⟩ :=
      begins_words (loopsAround p.loops a + 1) (LoopGuess.of (p.loopCode a))
    exact Or.inr ⟨c, List.mem_cons_of_mem '[' hc, hbegins⟩
  | r + 3 => cases h

end Viewer

namespace Program.Paired

open Viewer Settings

variable {v : Viewer} {p : Program} {a : Nat × Nat}

theorem inClosingOrder_eq_nil_iff (h : Paired code p) :
    p.inClosingOrder = [] ↔ .loopOpen ∉ code ∧ .loopClose ∉ code := by
  constructor
  · intro hnil
    have hnone : ∀ i j, ¬ Matched code i j := by
      intro i j hmatched
      have hmem := h.mem_inClosingOrder (a := (i, j)).mpr hmatched
      rw [hnil] at hmem
      contradiction
    refine ⟨fun hopen => ?_, fun hclose => ?_⟩
    · obtain ⟨i, hi⟩ := List.mem_iff_getElem?.mp hopen
      obtain ⟨j, hmatched⟩ := h.opener i hi
      exact hnone i j hmatched
    · obtain ⟨j, hj⟩ := List.mem_iff_getElem?.mp hclose
      obtain ⟨i, hmatched⟩ := h.closer j hj
      exact hnone i j hmatched
  · rintro ⟨hopen, -⟩
    refine List.eq_nil_iff_forall_not_mem.mpr fun a ha => hopen ?_
    exact List.mem_of_getElem? (h.mem_inClosingOrder.mp ha).opener

/-- The code of a listed loop begins with its opener. -/
theorem loopCode_eq_cons (h : Paired code p) (hcode : p.code = code.toArray)
    (ha : p.inClosingOrder[k]? = some a) : ∃ body, p.loopCode a = .loopOpen :: body :=
  ⟨_, (h.mem_inClosingOrder.mp (List.mem_of_getElem? ha)).loopCode_eq hcode⟩

theorem noLoops_mem_iff (h : Paired code p) (hcode : p.code = code.toArray)
    (hcolor : v.color = false) :
    "No loops found".toList ∈ splitLines (v.loops p).toList ↔ p.inClosingOrder = [] := by
  have hN : Begins "No loops found".toList 'N' := ⟨by decide, 0, _, rfl⟩
  constructor
  · intro hmem
    obtain ⟨row, hrow⟩ := List.mem_iff_getElem?.mp hmem
    rcases loops_line_cases hcolor hrow with hline | hline | ⟨hnil, -⟩ | ⟨k, r, a, ha, -, hline⟩
    · exact absurd hline (by decide)
    · contradiction
    · exact hnil
    · obtain ⟨body, hbody⟩ := h.loopCode_eq_cons hcode ha
      rcases entry_cases hbody hline with ⟨-, htitle⟩ | ⟨c, hc, hbegins⟩
      · cases hN.unique (htitle ▸ begins_title _ _ _)
      · rw [← hN.unique hbegins] at hc
        contradiction
  · intro hnil
    rw [splitLines_loops_of_nil hcolor hnil]
    exact List.mem_cons_of_mem _ List.mem_cons_self

theorem title_iff (h : Paired code p) (hcode : p.code = code.toArray) (hcolor : v.color = false)
    {row d n : Nat} :
    (splitLines (v.loops p).toList)[row]? = some (title d n a) ↔
      ∃ k, row = 3 * k + 1 ∧ n = k + 1 ∧ p.inClosingOrder[k]? = some a ∧
        d = loopsAround p.inClosingOrder a := by
  have hL := begins_title d n a
  constructor
  · intro hrow
    rcases loops_line_cases hcolor hrow with
      hline | hline | ⟨-, hline⟩ | ⟨k, r, b, hb, hindex, hline⟩
    · have hmem : ']' ∈ title d n a := by simp [title_eq]
      rw [hline] at hmem
      exact absurd hmem (by decide)
    · rw [hline] at hL
      obtain ⟨-, d', cs, heq⟩ := hL
      simp at heq
    · rw [hline] at hL
      cases hL.unique ⟨by decide, 0, _, rfl⟩
    · obtain ⟨body, hbody⟩ := h.loopCode_eq_cons hcode hb
      rcases entry_cases hbody hline with ⟨hr, htitle⟩ | ⟨c, hc, hbegins⟩
      · obtain ⟨hd, hn, rfl⟩ := title_inj htitle
        refine ⟨k, ?_, hn, hb, ?_⟩
        · rw [hindex, hr]
        · rw [hd, loopsAround_inClosingOrder]
      · rw [← hL.unique hbegins] at hc
        contradiction
  · rintro ⟨k, rfl, rfl, ha, rfl⟩
    rw [loopsAround_inClosingOrder]
    exact getElem?_loops (r := 0) hcolor ha (by decide)

theorem getElem?_preview {i j : Nat} (h : Paired code p) (hcode : p.code = code.toArray)
    (hcolor : v.color = false) (ha : p.inClosingOrder[k]? = some (i, j)) :
    (splitLines (v.loops p).toList)[3 * k + 2]? =
      some (indentation (loopsAround p.inClosingOrder (i, j) + 1) ++
        (preview (spell (.loopOpen :: (between code i j ++ [.loopClose])))).toList) := by
  have hmatched : Matched code i j := h.mem_inClosingOrder.mp (List.mem_of_getElem? ha)
  have hline := getElem?_loops (r := 1) hcolor ha (by decide)
  rw [hline, loopsAround_inClosingOrder, ← hmatched.loopCode_eq hcode]
  rfl

theorem verdict_iff {i j : Nat} (h : Paired code p) (hcode : p.code = code.toArray)
    (hcolor : v.color = false) (ha : p.inClosingOrder[k]? = some (i, j)) (g : LoopGuess) :
    (splitLines (v.loops p).toList)[3 * k + 3]? =
        some (indentation (loopsAround p.inClosingOrder (i, j) + 1) ++ g.words.toList) ↔
      LoopGuess.of (between code i j) = g := by
  have hmatched : Matched code i j := h.mem_inClosingOrder.mp (List.mem_of_getElem? ha)
  have hline := getElem?_loops (r := 2) hcolor ha (by decide)
  rw [hline, loopsAround_inClosingOrder, ← hmatched.guess_loopCode hcode]
  constructor
  · intro heq
    have hwords := List.append_cancel_left (Option.some.inj heq)
    exact LoopGuess.words_injective (String.toList_inj.mp hwords)
  · rintro rfl
    rfl

/-- A loop that closes first is listed first. -/
theorem index_lt_of_closer_lt (h : Paired code p) {k l : Nat} {a b : Nat × Nat}
    (ha : p.inClosingOrder[k]? = some a) (hb : p.inClosingOrder[l]? = some b) (hcloser : a.2 < b.2) :
    k < l := by
  obtain ⟨hk, rfl⟩ := List.getElem?_eq_some_iff.mp ha
  obtain ⟨hl, rfl⟩ := List.getElem?_eq_some_iff.mp hb
  have hsorted := List.pairwise_iff_getElem.mp h.pairwise_inClosingOrder
  rcases Nat.lt_trichotomy k l with hlt | rfl | hlt
  · exact hlt
  · exact absurd hcloser (Nat.lt_irrefl _)
  · have hle := hsorted l k hl hk hlt
    omega

end Program.Paired

namespace Viewer

open Settings

/-- **The report of the loops is the loop forest.**  Let a program be shown without colour.

* The report says that there are no loops if and only if the program has no bracket.
* It lists the pairs of brackets, each once, in the order of the closers, so that a loop comes
  before the loops around it.
* A line of the text is the title of a loop if and only if it is the first line of the entry of that
  loop; it then has the number of the entry and two blanks for each loop around the loop.
* The loops around a loop are as many as the `[` before its opener that are not closed there.
* The brackets of a listed loop are in the program, the opener first.
* The second line of an entry shows the code of the loop, cut to thirty-seven characters and dots if
  it has more than forty.
* The third, the verdict, is that the head moves by `s` if and only if `s` is not zero and there are
  `s` more `>` than `<` between the brackets.  If there are as many of both, it is that the loop is
  balanced if there is a `-` between the brackets, and that it is endless if there is none. -/
theorem loops_shows_forest (v : Viewer) (source : String) (p : Program) (hcolor : v.color = false)
    (hp : Program.parse source = .ok p) :
    let code := clean source
    let lines := splitLines (v.loops p).toList
    ("No loops found".toList ∈ lines ↔ .loopOpen ∉ code ∧ .loopClose ∉ code) ∧
    ∃ listing : List (Nat × Nat),
      (∀ i j, (i, j) ∈ listing ↔ Matched code i j) ∧
      (listing.Pairwise fun a b => a.2 < b.2) ∧
      (∀ (k l : Nat) (a b : Nat × Nat), listing[k]? = some a → listing[l]? = some b →
        b.1 < a.1 ∧ a.2 < b.2 → k < l) ∧
      (∀ (row d n : Nat) (a : Nat × Nat), lines[row]? = some (title d n a) ↔
        ∃ k, row = 3 * k + 1 ∧ n = k + 1 ∧ listing[k]? = some a ∧ d = loopsAround listing a) ∧
      (∀ a ∈ listing, (loopsAround listing a : Int) = depth code a.1) ∧
      ∀ k i j : Nat, listing[k]? = some (i, j) →
        let body := between code i j
        let text := spell (.loopOpen :: (body ++ [.loopClose]))
        let shift : Int := (body.count .right : Int) - body.count .left
        let shows := fun (row : Nat) (line : String) =>
          lines[row]? = some (indentation (loopsAround listing (i, j) + 1) ++ line.toList)
        i < j ∧ j < p.size ∧
        shows (3 * k + 2)
          (if 40 < text.length then String.ofList (text.toList.take 37) ++ "..." else text) ∧
        (∀ s : Int, shows (3 * k + 3)
            ("Pointer moves (" ++ ((if 0 ≤ s then "+" else "-") ++ toString s.natAbs) ++ ")") ↔
          shift ≠ 0 ∧ s = shift) ∧
        (shows (3 * k + 3) "Balanced loop (likely terminates)" ↔
          shift = 0 ∧ .decrement ∈ body) ∧
        (shows (3 * k + 3) "Potential infinite loop" ↔
          shift = 0 ∧ .decrement ∉ body) := by
  intro code lines
  have h : Program.Paired code p := Program.paired_of_ofInstructions hp
  have hcode : p.code = code.toArray := Program.code_of_ofInstructions hp
  refine ⟨(h.noLoops_mem_iff hcode hcolor).trans h.inClosingOrder_eq_nil_iff, p.inClosingOrder,
    fun i j => h.mem_inClosingOrder, h.pairwise_inClosingOrder, ?_, ?_, ?_, ?_⟩
  · rintro k l a b ha hb ⟨-, hcloser⟩
    exact h.index_lt_of_closer_lt ha hb hcloser
  · intro row d n a
    exact h.title_iff hcode hcolor
  · intro a ha
    rw [Program.loopsAround_inClosingOrder]
    exact h.loopsAround_loops (h.mem_inClosingOrder.mp ha)
  · intro k i j ha body text shift shows
    have hmatched : Matched code i j := h.mem_inClosingOrder.mp (List.mem_of_getElem? ha)
    have hinside : j < p.size := by
      rw [Program.size, hcode]
      exact (List.getElem?_eq_some_iff.mp hmatched.closer).1
    have hverdict : ∀ g : LoopGuess, shows (3 * k + 3) g.words ↔ LoopGuess.of body = g :=
      h.verdict_iff hcode hcolor ha
    exact ⟨hmatched.lt, hinside, h.getElem?_preview hcode hcolor ha,
      fun s => (hverdict (.drifting s)).trans LoopGuess.of_eq_drifting_iff,
      (hverdict .balanced).trans LoopGuess.of_eq_balanced_iff,
      (hverdict .endless).trans LoopGuess.of_eq_endless_iff⟩

/-- The inner of two loops is indented once, and brings the head back. -/
theorem loops_shows_forest_inner :
    ∃ p, Program.parse "+[>[-]<]" = .ok p ∧
      let lines := splitLines (Viewer.loops {} p).toList
      "No loops found".toList ∉ lines ∧
      ∃ k : Nat, lines[3 * k + 1]? = some (title 1 (k + 1) (3, 5)) ∧
        lines[3 * k + 3]? =
          some (indentation 2 ++ "Balanced loop (likely terminates)".toList) := by
  obtain ⟨p, hp⟩ : ∃ p, Program.parse "+[>[-]<]" = .ok p := ⟨_, rfl⟩
  obtain ⟨hnone, listing, hmem, -, -, htitle, hdepth, hverdict⟩ :=
    loops_shows_forest {} _ p rfl hp
  have hmatched : Matched (clean "+[>[-]<]") 3 5 := by
    refine ⟨rfl, rfl, by decide, by decide, fun k hlo hhi => ?_⟩
    obtain rfl | rfl : k = 4 ∨ k = 5 := by omega
    · decide
    · decide
  have hlisted := (hmem 3 5).mpr hmatched
  have haround : loopsAround listing (3, 5) = 1 := Int.ofNat_inj.mp (hdepth _ hlisted)
  obtain ⟨k, hk⟩ := List.mem_iff_getElem?.mp hlisted
  obtain ⟨-, -, -, -, hbalanced, -⟩ := hverdict k 3 5 hk
  have hbalanced := hbalanced.mpr (by decide)
  rw [haround] at hbalanced
  refine ⟨p, hp, fun hmem => ?_, k, (htitle _ _ _ _).mpr ⟨k, rfl, rfl, hk, haround.symm⟩, hbalanced⟩
  exact absurd (hnone.mp hmem).1 (by decide)

end Viewer

end TapeTutor
