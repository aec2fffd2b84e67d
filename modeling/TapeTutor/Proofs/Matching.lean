import TapeTutor.Proofs.Block
import Mathlib.Order.Bounds.Basic

/-!
# Brackets and their partners

Which `]` belongs to which `[` can be said without a stack and without a table.  Let the *depth*
at a position be the number of `[` minus the number of `]` before it.  The partner of a `[` is the
first `]` behind it that brings the depth back to what it was; `Matched` says so.

The pass of `Program.parse` finds exactly these pairs.  Its invariant, `Program.Scan.Tracks`, ties
the three things together that the pass knows at a position:

* the number of waiting openers is the depth, and the one with `r` openers on top of it stands
  `r + 1` levels below the present depth;
* a waiting opener lies below everything behind it (`Waits`), so none of what has been read is its
  partner;
* the table holds the matched pairs that have been read completely, and nothing else.

One step of the pass keeps the invariant or meets a `]` at depth zero (`Scan.Tracks.visit`).  What
the whole pass comes to follows by induction (`Scan.Tracks.run`), and what it says of a program is
`target?_eq_some_iff`: the jumps of a parsed program are its matched brackets.
-/

namespace TapeTutor

variable {code : List Instruction} {i j k : Nat}

/-! ## Depth -/

/-- The number of `[` minus the number of `]` among the first `k` instructions. -/
def depth (code : List Instruction) (k : Nat) : Int :=
  (code.take k).count .loopOpen - (code.take k).count .loopClose

@[simp] theorem depth_zero (code : List Instruction) : depth code 0 = 0 := rfl

theorem depth_of_length_le (h : code.length ≤ k) : depth code k = depth code code.length := by
  rw [depth, depth, List.take_of_length_le h, List.take_length]

/-- What an instruction adds to the depth. -/
def Instruction.rise : Instruction → Int
  | .loopOpen => 1
  | .loopClose => -1
  | _ => 0

theorem depth_succ {c : Instruction} (h : code[k]? = some c) :
    depth code (k + 1) = depth code k + c.rise := by
  have hrise : ([c].count .loopOpen : Int) - [c].count .loopClose = c.rise := by
    cases c <;> rfl
  rw [depth, depth, List.take_add_one, h, Option.toList_some, List.count_append,
    List.count_append]
  omega

/-! ## Matched brackets -/

/-- The `[` at `i` and the `]` at `j` are partners: the depth behind the `]` is the one before the
`[`, and it is greater everywhere between them. -/
structure Matched (code : List Instruction) (i j : Nat) : Prop where
  opener : code[i]? = some .loopOpen
  closer : code[j]? = some .loopClose
  lt : i < j
  depth_eq : depth code (j + 1) = depth code i
  inside : ∀ k, i < k → k ≤ j → depth code i < depth code k

namespace Matched

/-- The partner of a `[` is the first position behind which the depth is that of the `[`. -/
theorem isLeast (h : Matched code i j) :
    IsLeast {j | i < j ∧ depth code (j + 1) = depth code i} j := by
  refine ⟨⟨h.lt, h.depth_eq⟩, ?_⟩
  rintro j' ⟨hlt, hdepth⟩
  by_contra hnot
  have hinside := h.inside (j' + 1) (by omega) (by omega)
  omega

theorem closer_unique {j' : Nat} (h : Matched code i j) (h' : Matched code i j') : j = j' :=
  h.isLeast.unique h'.isLeast

/-- Two loops that open in this order are apart, or the second lies inside the first. -/
theorem apart_or_inside {i' j' : Nat} (h : Matched code i j) (h' : Matched code i' j')
    (hlt : i < i') : j < i' ∨ j' < j := by
  by_contra hnot
  have hne : i' ≠ j := by
    rintro rfl
    have hopen := h'.opener
    rw [h.closer] at hopen
    contradiction
  -- the second `[` is inside the first loop, and the first `]` is not behind the second loop
  have hbelow := h.inside i' hlt (by omega)
  have hdepth := h.depth_eq
  have hdepth' := h'.depth_eq
  by_cases hsame : j = j'
  · rw [hsame] at hdepth
    omega
  · have habove := h'.inside (j + 1) (by omega) (by omega)
    omega

theorem opener_unique {i' : Nat} (h : Matched code i j) (h' : Matched code i' j) : i = i' := by
  have hlt := h.lt
  have hlt' := h'.lt
  rcases Nat.lt_trichotomy i i' with hbefore | heq | hbehind
  · rcases h.apart_or_inside h' hbefore with hapart | hinside <;> omega
  · exact heq
  · rcases h'.apart_or_inside h hbehind with hapart | hinside <;> omega

end Matched

/-! ## The invariant of the pass -/

/-- The `[` at `o` has met no partner before `k`: everything behind it lies deeper. -/
structure Waits (code : List Instruction) (k o : Nat) : Prop where
  opener : code[o]? = some .loopOpen
  lt : o < k
  below : ∀ l, o < l → l ≤ k → depth code o < depth code l

theorem Waits.succ {o : Nat} (h : Waits code k o) (hnext : depth code o < depth code (k + 1)) :
    Waits code (k + 1) o := by
  refine ⟨h.opener, Nat.lt_succ_of_lt h.lt, ?_⟩
  intro l hlo hhi
  rcases Nat.lt_or_ge k l with hlt | hle
  · rw [show l = k + 1 by omega]
    exact hnext
  · exact h.below l hlo hle

/-- What stands among the first `k + 1` instructions, but not last, stands among the first `k`. -/
theorem lt_of_getElem?_ne {c : Instruction} (hi : i < k + 1) (hc : code[i]? = some c)
    (hk : code[k]? ≠ some c) : i < k := by
  have hne : i ≠ k := by
    rintro rfl
    exact hk hc
  omega

namespace Program

/-- What the pass knows when the first `k` instructions have been read. -/
structure Scan.Tracks (code : List Instruction) (k : Nat) (s : Scan) : Prop where
  nonneg : ∀ l, l ≤ k → 0 ≤ depth code l
  height : depth code k = s.pending.length
  level : ∀ r o : Nat, s.pending[r]? = some o → depth code o + r + 1 = depth code k
  waits : ∀ o, o ∈ s.pending → Waits code k o
  opener : ∀ i, i < k → code[i]? = some .loopOpen →
    i ∈ s.pending ∨ ∃ j, j < k ∧ Matched code i j
  closer : ∀ j, j < k → code[j]? = some .loopClose → ∃ i, Matched code i j
  size : s.targets.size = code.length
  table : ∀ i j, (s.targets[i]?).join = some j ↔
    (Matched code i j ∧ j < k) ∨ (Matched code j i ∧ i < k)

namespace Scan.Tracks

variable {s : Scan}

theorem start (code : List Instruction) : Tracks code 0 (Scan.start code.length) where
  nonneg l hl := by
    rw [Nat.le_zero.mp hl, depth_zero]
  height := rfl
  level r o ho := by simp [Scan.start] at ho
  waits o ho := by simp [Scan.start] at ho
  opener i hi := absurd hi (Nat.not_lt_zero i)
  closer j hj := absurd hj (Nat.not_lt_zero j)
  size := by simp [Scan.start]
  table i j := by
    simp only [Scan.start, Array.getElem?_replicate]
    split <;> simp

/-- The depths of the first `k + 1` positions are those of the first `k` and the next one. -/
theorem nonneg_succ (h : Tracks code k s) (hnext : 0 ≤ depth code (k + 1)) :
    ∀ l, l ≤ k + 1 → 0 ≤ depth code l := by
  intro l hl
  rcases Nat.lt_or_ge k l with hlt | hle
  · rw [show l = k + 1 by omega]
    exact hnext
  · exact h.nonneg l hle

/-- The pairs read completely do not change when the next instruction is no `]`. -/
theorem table_succ (h : Tracks code k s) (hk : code[k]? ≠ some .loopClose) (i j : Nat) :
    (s.targets[i]?).join = some j ↔
      (Matched code i j ∧ j < k + 1) ∨ (Matched code j i ∧ i < k + 1) := by
  have hclosed : ∀ a b, Matched code a b ∧ b < k + 1 ↔ Matched code a b ∧ b < k := by
    intro a b
    refine and_congr_right fun hmatched => ⟨fun hlt => ?_, fun hlt => by omega⟩
    exact lt_of_getElem?_ne hlt hmatched.closer hk
  rw [h.table, hclosed, hclosed]

/-- An opener that is read before the next instruction waits, or its partner has been read. -/
theorem opener_succ (h : Tracks code k s) (hi : i < k) (hopen : code[i]? = some .loopOpen) :
    i ∈ s.pending ∨ ∃ j, j < k + 1 ∧ Matched code i j := by
  rcases h.opener i hi hopen with hmem | ⟨j, hj, hmatched⟩
  · exact Or.inl hmem
  · exact Or.inr ⟨j, by omega, hmatched⟩

theorem visit_action (h : Tracks code k s) {c : Instruction} (hc : code[k]? = some c)
    (hrise : c.rise = 0) : Tracks code (k + 1) s := by
  have hdepth := depth_succ hc
  have hheight := h.height
  have hopen : code[k]? ≠ some .loopOpen := by
    rw [hc]
    rintro ⟨⟩
    contradiction
  have hclose : code[k]? ≠ some .loopClose := by
    rw [hc]
    rintro ⟨⟩
    contradiction
  refine ⟨h.nonneg_succ (by omega), by omega, ?_, ?_, ?_, ?_, h.size, h.table_succ hclose⟩
  · intro r o ho
    have hlevel := h.level r o ho
    omega
  · intro o ho
    have hwaits := h.waits o ho
    have hbelow := hwaits.below k hwaits.lt (Nat.le_refl k)
    exact hwaits.succ (by omega)
  · intro i hi hi'
    exact h.opener_succ (lt_of_getElem?_ne hi hi' hopen) hi'
  · intro j hj hj'
    exact h.closer j (lt_of_getElem?_ne hj hj' hclose) hj'

theorem visit_open (h : Tracks code k s) (hc : code[k]? = some .loopOpen) :
    Tracks code (k + 1) { s with pending := k :: s.pending } := by
  have hdepth : depth code (k + 1) = depth code k + 1 := depth_succ hc
  have hheight := h.height
  have hclose : code[k]? ≠ some .loopClose := by
    rw [hc]
    nofun
  refine ⟨h.nonneg_succ (by omega), ?_, ?_, ?_, ?_, ?_, h.size, h.table_succ hclose⟩
  · rw [List.length_cons]
    omega
  · intro r o ho
    cases r with
    | zero =>
      cases ho
      omega
    | succ r =>
      have hlevel := h.level r o ho
      omega
  · intro o ho
    rcases List.mem_cons.mp ho with rfl | hmem
    · refine ⟨hc, Nat.lt_succ_self o, fun l hlo hhi => ?_⟩
      rw [show l = o + 1 by omega]
      omega
    · have hwaits := h.waits o hmem
      have hbelow := hwaits.below k hwaits.lt (Nat.le_refl k)
      exact hwaits.succ (by omega)
  · intro i hi hi'
    by_cases heq : i = k
    · exact Or.inl (heq ▸ List.mem_cons_self)
    · exact (h.opener_succ (by omega) hi').imp_left (List.mem_cons_of_mem k)
  · intro j hj hj'
    exact h.closer j (lt_of_getElem?_ne hj hj' hclose) hj'

/-- The latest waiting opener is the partner of a `]` that comes next. -/
theorem matched_of_close {o : Nat} {rest : List Nat} (h : Tracks code k s)
    (hc : code[k]? = some .loopClose) (hpending : s.pending = o :: rest) : Matched code o k := by
  have hwaits := h.waits o (by rw [hpending]; exact List.mem_cons_self)
  have hlevel := h.level 0 o (by rw [hpending]; rfl)
  have hdepth : depth code (k + 1) = depth code k - 1 := depth_succ hc
  exact ⟨hwaits.opener, hc, hwaits.lt, by omega, hwaits.below⟩

/-- Linking the two brackets of a loop adds that loop to the pairs read completely. -/
theorem table_linkPair {o : Nat} (h : Tracks code k s) (hpair : Matched code o k)
    (hk : k < s.targets.size) (i j : Nat) :
    ((linkPair s.targets o k)[i]?).join = some j ↔
      (Matched code i j ∧ j < k + 1) ∨ (Matched code j i ∧ i < k + 1) := by
  have hlt := hpair.lt
  by_cases hio : i = o
  · subst hio
    rw [getElem?_linkPair_opener (Nat.ne_of_lt hlt) (by omega), Option.join_some]
    constructor
    · intro hj
      cases hj
      exact Or.inl ⟨hpair, Nat.lt_succ_self _⟩
    · rintro (⟨hmatched, _⟩ | ⟨hmatched, _⟩)
      · rw [hpair.closer_unique hmatched]
      · have hopen := hpair.opener
        rw [hmatched.closer] at hopen
        contradiction
  · by_cases hik : i = k
    · subst hik
      rw [getElem?_linkPair_closer hk, Option.join_some]
      constructor
      · intro hj
        cases hj
        exact Or.inr ⟨hpair, Nat.lt_succ_self _⟩
      · rintro (⟨hmatched, _⟩ | ⟨hmatched, _⟩)
        · have hopen := hmatched.opener
          rw [hpair.closer] at hopen
          contradiction
        · rw [hpair.opener_unique hmatched]
    · -- a pair that is complete now and was not before ends at `k`, so it is the new one
      rw [getElem?_linkPair_of_ne hio hik, h.table]
      constructor
      · rintro (⟨hmatched, hj⟩ | ⟨hmatched, hi⟩)
        · exact Or.inl ⟨hmatched, by omega⟩
        · exact Or.inr ⟨hmatched, by omega⟩
      · rintro (⟨hmatched, hj⟩ | ⟨hmatched, hi⟩)
        · have hne : j ≠ k := by
            rintro rfl
            exact hio (hmatched.opener_unique hpair)
          exact Or.inl ⟨hmatched, by omega⟩
        · exact Or.inr ⟨hmatched, by omega⟩

theorem visit_close {o : Nat} {rest : List Nat} (h : Tracks code k s)
    (hc : code[k]? = some .loopClose) (hpending : s.pending = o :: rest) :
    Tracks code (k + 1) { pending := rest, targets := linkPair s.targets o k } := by
  have hpair := h.matched_of_close hc hpending
  have hdepth : depth code (k + 1) = depth code k - 1 := depth_succ hc
  have hheight := h.height
  rw [hpending, List.length_cons] at hheight
  have hk : k < code.length := (List.getElem?_eq_some_iff.mp hc).1
  refine ⟨h.nonneg_succ (by omega), by dsimp only; omega, ?_, ?_, ?_, ?_, ?_, ?_⟩
  · intro r o' ho'
    have hlevel := h.level (r + 1) o' (by rw [hpending]; exact ho')
    omega
  · intro o' ho'
    have hwaits := h.waits o' (by rw [hpending]; exact List.mem_cons_of_mem o ho')
    obtain ⟨r, hr⟩ := List.mem_iff_getElem?.mp ho'
    have hlevel := h.level (r + 1) o' (by rw [hpending]; exact hr)
    exact hwaits.succ (by omega)
  · intro i hi hi'
    have hopen : code[k]? ≠ some .loopOpen := by
      rw [hc]
      nofun
    rcases h.opener_succ (lt_of_getElem?_ne hi hi' hopen) hi' with hmem | hread
    · rw [hpending] at hmem
      rcases List.mem_cons.mp hmem with rfl | hmem
      · exact Or.inr ⟨k, Nat.lt_succ_self k, hpair⟩
      · exact Or.inl hmem
    · exact Or.inr hread
  · intro j hj hj'
    by_cases heq : j = k
    · exact ⟨o, heq ▸ hpair⟩
    · exact h.closer j (by omega) hj'
  · rw [size_linkPair]
    exact h.size
  · exact h.table_linkPair hpair (by rw [h.size]; exact hk)

/-- **One step of the pass** keeps the invariant, or it meets a `]` at depth zero. -/
theorem visit (h : Tracks code k s) {c : Instruction} (hc : code[k]? = some c) :
    (∃ s', s.visit c k = .ok s' ∧ Tracks code (k + 1) s') ∨
      (s.visit c k = .error (.unmatched .closing k) ∧ depth code (k + 1) < 0) := by
  cases c with
  | loopOpen => exact Or.inl ⟨_, rfl, h.visit_open hc⟩
  | loopClose =>
    cases hpending : s.pending with
    | nil =>
      have hdepth : depth code (k + 1) = depth code k - 1 := depth_succ hc
      have hheight := h.height
      rw [hpending, List.length_nil] at hheight
      refine Or.inr ⟨?_, by omega⟩
      simp only [Scan.visit, hpending]
    | cons o rest =>
      refine Or.inl ⟨_, ?_, h.visit_close hc hpending⟩
      simp only [Scan.visit, hpending]
      rfl
  | _ => exact Or.inl ⟨s, rfl, h.visit_action hc rfl⟩

/-- **The whole pass** keeps the invariant to the end, or it fails at the first position behind
which the depth is negative. -/
theorem run (h : Tracks code k s) (hk : k ≤ code.length) {rest : List Instruction}
    (hrest : code.drop k = rest) :
    (∃ s', s.run k rest = .ok s' ∧ Tracks code code.length s') ∨
      ∃ j, s.run k rest = .error (.unmatched .closing j) ∧
        IsLeast {j | depth code (j + 1) < 0} j := by
  induction rest generalizing k s with
  | nil =>
    have hle : code.length ≤ k := List.drop_eq_nil_iff.mp hrest
    have heq : k = code.length := Nat.le_antisymm hk hle
    exact Or.inl ⟨s, rfl, heq ▸ h⟩
  | cons c rest ih =>
    have hc : code[k]? = some c := by
      have hhead := @List.getElem?_drop _ code k 0
      rw [hrest] at hhead
      exact hhead.symm
    have hlt : k < code.length := (List.getElem?_eq_some_iff.mp hc).1
    have htail : code.drop (k + 1) = rest := by
      rw [← List.tail_drop, hrest, List.tail_cons]
    rcases h.visit hc with ⟨s', hvisit, hnext⟩ | ⟨hvisit, hneg⟩
    · rw [Scan.run, hvisit]
      exact ih hnext hlt htail
    · refine Or.inr ⟨k, ?_, hneg, ?_⟩
      · rw [Scan.run, hvisit]
      · -- no earlier prefix is negative
        intro j (hj : depth code (j + 1) < 0)
        by_contra hnot
        have hnonneg := h.nonneg (j + 1) (by omega)
        omega

end Scan.Tracks

/-! ## What the pass comes to -/

/-- The jumps of a program are the matched brackets of its code, and every bracket has one. -/
structure Paired (code : List Instruction) (p : Program) : Prop where
  target?_eq_some_iff : ∀ i j, p.target? i = some j ↔ Matched code i j ∨ Matched code j i
  opener : ∀ i, code[i]? = some .loopOpen → ∃ j, Matched code i j
  closer : ∀ j, code[j]? = some .loopClose → ∃ i, Matched code i j
  size : p.targets.size = code.length

/-- No prefix has more `]` than `[`. -/
def DepthNonneg (code : List Instruction) : Prop := ∀ k, 0 ≤ depth code k

/-- The openers that never find a partner. -/
def lonelyOpeners (code : List Instruction) : Set Nat :=
  {o | code[o]? = some .loopOpen ∧ ∀ k, o < k → depth code o < depth code k}

theorem Scan.Tracks.depthNonneg {s : Scan} (h : Scan.Tracks code code.length s) :
    DepthNonneg code := by
  intro k
  rcases Nat.le_total k code.length with hle | hge
  · exact h.nonneg k hle
  · rw [depth_of_length_le hge]
    exact h.nonneg _ (Nat.le_refl _)

/-- A finished pass that left no opener waiting has paired all brackets. -/
theorem Scan.Tracks.paired {s : Scan} (h : Scan.Tracks code code.length s)
    (hpending : s.pending = []) : Paired code ⟨code.toArray, s.targets⟩ where
  target?_eq_some_iff i j := by
    have hlt : ∀ {a b}, Matched code a b → b < code.length := fun hmatched =>
      (List.getElem?_eq_some_iff.mp hmatched.closer).1
    rw [target?, h.table]
    constructor
    · rintro (⟨hmatched, _⟩ | ⟨hmatched, _⟩)
      · exact Or.inl hmatched
      · exact Or.inr hmatched
    · rintro (hmatched | hmatched)
      · exact Or.inl ⟨hmatched, hlt hmatched⟩
      · exact Or.inr ⟨hmatched, hlt hmatched⟩
  opener i hi := by
    rcases h.opener i (List.getElem?_eq_some_iff.mp hi).1 hi with hmem | ⟨j, _, hmatched⟩
    · rw [hpending] at hmem
      contradiction
    · exact ⟨j, hmatched⟩
  closer j hj := h.closer j (List.getElem?_eq_some_iff.mp hj).1 hj
  size := h.size

/-- The opener at the bottom of a finished pass is the earliest without a partner. -/
theorem Scan.Tracks.isLeast_lonely {s : Scan} {o : Nat} (h : Scan.Tracks code code.length s)
    (hlast : s.pending.getLast? = some o) :
    0 < depth code code.length ∧ IsLeast (lonelyOpeners code) o := by
  rw [List.getLast?_eq_getElem?] at hlast
  have hmem : o ∈ s.pending := List.mem_of_getElem? hlast
  have hlen : s.pending.length - 1 < s.pending.length := (List.getElem?_eq_some_iff.mp hlast).1
  have hheight := h.height
  have hlevel := h.level _ o hlast
  have hwaits := h.waits o hmem
  refine ⟨by omega, ⟨hwaits.opener, fun k hk => ?_⟩, ?_⟩
  · rcases Nat.le_total k code.length with hle | hge
    · exact hwaits.below k hk hle
    · rw [depth_of_length_le hge]
      exact hwaits.below _ hwaits.lt (Nat.le_refl _)
  · -- the bottom opener stands at depth zero, and nothing before it lies deeper
    rintro o' ⟨_, hbelow⟩
    by_contra hnot
    have hless := hbelow o (by omega)
    have hnonneg := h.depthNonneg o'
    omega

/-- **What the pass can come to**, with the condition for each. -/
theorem ofInstructions_cases (code : List Instruction) :
    (∃ p, ofInstructions code = .ok p ∧ DepthNonneg code ∧ depth code code.length = 0 ∧
        Paired code p) ∨
      (∃ j, ofInstructions code = .error (.unmatched .closing j) ∧
        IsLeast {j | depth code (j + 1) < 0} j) ∨
      ∃ o, ofInstructions code = .error (.unmatched .opening o) ∧ DepthNonneg code ∧
        0 < depth code code.length ∧ IsLeast (lonelyOpeners code) o := by
  rcases (Scan.Tracks.start code).run (Nat.zero_le _) List.drop_zero with
    ⟨s, hrun, h⟩ | ⟨j, hrun, hleast⟩
  · cases hlast : s.pending.getLast? with
    | none =>
      have hpending : s.pending = [] := List.getLast?_eq_none_iff.mp hlast
      refine Or.inl ⟨_, ?_, h.depthNonneg, ?_, h.paired hpending⟩
      · simp only [ofInstructions, hrun, hlast]
      · rw [h.height, hpending]
        rfl
    | some o =>
      refine Or.inr (Or.inr ⟨o, ?_, h.depthNonneg, h.isLeast_lonely hlast⟩)
      simp only [ofInstructions, hrun, hlast]
  · refine Or.inr (Or.inl ⟨j, ?_, hleast⟩)
    simp only [ofInstructions, hrun]

theorem DepthNonneg.not_isLeast (h : DepthNonneg code) :
    ¬ IsLeast {j | depth code (j + 1) < 0} j := by
  rintro ⟨hneg, _⟩
  exact absurd hneg (Int.not_lt.mpr (h (j + 1)))

theorem ofInstructions_eq_ok_iff (code : List Instruction) :
    (∃ p, ofInstructions code = .ok p) ↔ DepthNonneg code ∧ depth code code.length = 0 := by
  rcases ofInstructions_cases code with
    ⟨p, hp, hnonneg, hzero, _⟩ | ⟨j, hj, hleast⟩ | ⟨o, ho, _, hpos, _⟩
  · exact ⟨fun _ => ⟨hnonneg, hzero⟩, fun _ => ⟨p, hp⟩⟩
  · rw [hj]
    exact ⟨nofun, fun h => absurd hleast h.1.not_isLeast⟩
  · rw [ho]
    exact ⟨nofun, fun h => absurd h.2 (Int.ne_of_gt hpos)⟩

theorem ofInstructions_eq_closing_iff (code : List Instruction) (j : Nat) :
    ofInstructions code = .error (.unmatched .closing j) ↔
      IsLeast {j | depth code (j + 1) < 0} j := by
  rcases ofInstructions_cases code with
    ⟨p, hp, hnonneg, _⟩ | ⟨j', hj, hleast⟩ | ⟨o, ho, hnonneg, _⟩
  · rw [hp]
    exact ⟨nofun, fun hleast => absurd hleast hnonneg.not_isLeast⟩
  · rw [hj]
    constructor
    · intro heq
      cases heq
      exact hleast
    · intro hleast'
      rw [hleast.unique hleast']
  · rw [ho]
    exact ⟨nofun, fun hleast => absurd hleast hnonneg.not_isLeast⟩

theorem ofInstructions_eq_opening_iff (code : List Instruction) (o : Nat) :
    ofInstructions code = .error (.unmatched .opening o) ↔
      DepthNonneg code ∧ 0 < depth code code.length ∧ IsLeast (lonelyOpeners code) o := by
  rcases ofInstructions_cases code with
    ⟨p, hp, _, hzero, _⟩ | ⟨j, hj, hleast⟩ | ⟨o', ho, hnonneg, hpos, hleast⟩
  · rw [hp]
    exact ⟨nofun, fun h => absurd hzero (Int.ne_of_gt h.2.1)⟩
  · rw [hj]
    exact ⟨nofun, fun h => absurd hleast h.1.not_isLeast⟩
  · rw [ho]
    constructor
    · intro heq
      cases heq
      exact ⟨hnonneg, hpos, hleast⟩
    · rintro ⟨_, _, hleast'⟩
      rw [hleast.unique hleast']

/-- The brackets of a program are paired. -/
theorem paired_of_ofInstructions {p : Program} (h : ofInstructions code = .ok p) :
    Paired code p := by
  rcases ofInstructions_cases code with ⟨q, hq, _, _, hpaired⟩ | ⟨j, hj, _⟩ | ⟨o, ho, _⟩
  · rw [hq] at h
    cases h
    exact hpaired
  · rw [hj] at h
    contradiction
  · rw [ho] at h
    contradiction

/-! ## The jumps of a program -/

namespace Paired

variable {p : Program}

theorem target?_opener (h : Paired code p) (hi : code[i]? = some .loopOpen) :
    ∃ j, p.target? i = some j ∧ Matched code i j := by
  obtain ⟨j, hmatched⟩ := h.opener i hi
  exact ⟨j, (h.target?_eq_some_iff i j).mpr (Or.inl hmatched), hmatched⟩

theorem target?_closer (h : Paired code p) (hj : code[j]? = some .loopClose) :
    ∃ i, p.target? j = some i ∧ Matched code i j := by
  obtain ⟨i, hmatched⟩ := h.closer j hj
  exact ⟨i, (h.target?_eq_some_iff j i).mpr (Or.inr hmatched), hmatched⟩

/-- What a bracket jumps to jumps back. -/
theorem target?_comm (h : Paired code p) : p.target? i = some j ↔ p.target? j = some i := by
  rw [h.target?_eq_some_iff, h.target?_eq_some_iff]
  exact Or.comm

/-- Only brackets jump. -/
theorem target?_eq_none (h : Paired code p) (hopen : code[i]? ≠ some .loopOpen)
    (hclose : code[i]? ≠ some .loopClose) : p.target? i = none := by
  rw [Option.eq_none_iff_forall_ne_some]
  intro j hj
  rcases (h.target?_eq_some_iff i j).mp hj with hmatched | hmatched
  · exact hopen hmatched.opener
  · exact hclose hmatched.closer

end Paired

/-! ## The list of loops -/

/-- The loop that an entry of the table opens, if it opens one. -/
def loopAt : Option Nat × Nat → Option (Nat × Nat)
  | (some j, i) => if i < j then some (i, j) else none
  | (none, _) => none

theorem loops_eq_filterMap (p : Program) : p.loops = p.targets.toList.zipIdx.filterMap loopAt := by
  unfold loops
  congr 1
  funext ⟨target, i⟩
  cases target <;> rfl

theorem loopAt_eq_some_iff {target : Option Nat} {n : Nat} {a : Nat × Nat} :
    loopAt (target, n) = some a ↔ target = some a.2 ∧ n = a.1 ∧ a.1 < a.2 := by
  obtain ⟨i, j⟩ := a
  cases target with
  | none => simp [loopAt]
  | some t =>
    simp only [loopAt, Option.ite_none_right_eq_some, Option.some.injEq, Prod.mk.injEq]
    constructor
    · rintro ⟨hlt, rfl, rfl⟩
      exact ⟨rfl, rfl, hlt⟩
    · rintro ⟨rfl, rfl, hlt⟩
      exact ⟨hlt, rfl, rfl⟩

theorem mem_loops_iff (p : Program) (a : Nat × Nat) :
    a ∈ p.loops ↔ p.target? a.1 = some a.2 ∧ a.1 < a.2 := by
  rw [loops_eq_filterMap, List.mem_filterMap, target?, Option.join_eq_some_iff,
    ← Array.getElem?_toList]
  constructor
  · rintro ⟨⟨target, n⟩, hmem, hloop⟩
    rw [List.mem_zipIdx_iff_getElem?] at hmem
    obtain ⟨rfl, rfl, hlt⟩ := loopAt_eq_some_iff.mp hloop
    exact ⟨hmem, hlt⟩
  · rintro ⟨hget, hlt⟩
    refine ⟨(some a.2, a.1), ?_, loopAt_eq_some_iff.mpr ⟨rfl, rfl, hlt⟩⟩
    rw [List.mem_zipIdx_iff_getElem?]
    exact hget

/-- The loops stand in the order of their openers, none of them twice. -/
theorem pairwise_loops (p : Program) : p.loops.Pairwise fun a b => a.1 < b.1 := by
  have hindex : ∀ (l : List (Option Nat)) n, (l.zipIdx n).Pairwise fun a b => a.2 < b.2 := by
    intro l
    induction l with
    | nil => exact fun n => List.Pairwise.nil
    | cons t l ih =>
      intro n
      rw [List.zipIdx_cons, List.pairwise_cons]
      refine ⟨fun b hb => ?_, ih (n + 1)⟩
      exact List.le_snd_of_mem_zipIdx hb
  rw [loops_eq_filterMap]
  refine (hindex _ 0).filterMap loopAt ?_
  rintro ⟨t, n⟩ ⟨t', n'⟩ hlt a ha b hb
  obtain ⟨_, rfl, _⟩ := loopAt_eq_some_iff.mp ha
  obtain ⟨_, rfl, _⟩ := loopAt_eq_some_iff.mp hb
  exact hlt

/-- If the entries that open a loop stand where a list has a `[`, there are as many. -/
theorem length_filterMap_loopAt {ts : List (Option Nat)} {cs : List Instruction} {n : Nat}
    (hlen : ts.length = cs.length)
    (hopens : ∀ k t, ts[k]? = some t →
      ((loopAt (t, n + k)).isSome ↔ cs[k]? = some .loopOpen)) :
    ((ts.zipIdx n).filterMap loopAt).length = cs.count .loopOpen := by
  induction ts generalizing cs n with
  | nil =>
    rw [List.length_nil] at hlen
    rw [List.eq_nil_of_length_eq_zero hlen.symm]
    rfl
  | cons t ts ih =>
    cases cs with
    | nil => contradiction
    | cons c cs =>
      have hrest := @ih cs (n + 1) (Nat.succ.inj hlen) fun k t' ht' => by
        have hnext := hopens (k + 1) t' ht'
        rwa [show n + (k + 1) = n + 1 + k by omega] at hnext
      have hfirst := hopens 0 t rfl
      rw [List.getElem?_cons_zero, Nat.add_zero] at hfirst
      rw [List.zipIdx_cons, List.filterMap_cons, List.count_cons, ← hrest]
      cases hloop : loopAt (t, n) with
      | none =>
        rw [hloop] at hfirst
        have hne : (c == .loopOpen) = false := by simpa using hfirst
        rw [hne]
        rfl
      | some a =>
        rw [hloop] at hfirst
        have heq : (c == .loopOpen) = true := by simpa using hfirst
        rw [heq]
        rfl

namespace Paired

variable {p : Program}

theorem mem_loops (h : Paired code p) {a : Nat × Nat} : a ∈ p.loops ↔ Matched code a.1 a.2 := by
  rw [mem_loops_iff, h.target?_eq_some_iff]
  constructor
  · rintro ⟨hmatched | hmatched, hlt⟩
    · exact hmatched
    · have hlt' := hmatched.lt
      omega
  · exact fun hmatched => ⟨Or.inl hmatched, hmatched.lt⟩

/-- There are as many loops as openers. -/
theorem length_loops (h : Paired code p) : p.loops.length = code.count .loopOpen := by
  rw [loops_eq_filterMap]
  refine length_filterMap_loopAt (by rw [Array.length_toList, h.size]) fun k t ht => ?_
  rw [Nat.zero_add, Option.isSome_iff_exists]
  have htarget : p.target? k = t := by
    rw [target?, ← Array.getElem?_toList, ht, Option.join_some]
  constructor
  · rintro ⟨a, ha⟩
    obtain ⟨rfl, rfl, hlt⟩ := loopAt_eq_some_iff.mp ha
    exact (h.mem_loops.mp ((mem_loops_iff p a).mpr ⟨htarget, hlt⟩)).opener
  · intro hopen
    obtain ⟨j, hj, hmatched⟩ := h.target?_opener hopen
    exact ⟨(k, j), loopAt_eq_some_iff.mpr ⟨htarget.symm.trans hj, rfl, hmatched.lt⟩⟩

/-- Two loops are apart, or one lies inside the other. -/
theorem apart_or_nested (h : Paired code p) {a b : Nat × Nat} (ha : a ∈ p.loops)
    (hb : b ∈ p.loops) :
    a = b ∨ a.2 < b.1 ∨ b.2 < a.1 ∨ (a.1 < b.1 ∧ b.2 < a.2) ∨ (b.1 < a.1 ∧ a.2 < b.2) := by
  rw [h.mem_loops] at ha hb
  rcases Nat.lt_trichotomy a.1 b.1 with hlt | heq | hlt
  · rcases ha.apart_or_inside hb hlt with hapart | hinside
    · exact Or.inr (Or.inl hapart)
    · exact Or.inr (Or.inr (Or.inr (Or.inl ⟨hlt, hinside⟩)))
  · rw [← heq] at hb
    exact Or.inl (Prod.ext heq (ha.closer_unique hb))
  · rcases hb.apart_or_inside ha hlt with hapart | hinside
    · exact Or.inr (Or.inr (Or.inl hapart))
    · exact Or.inr (Or.inr (Or.inr (Or.inr ⟨hlt, hinside⟩)))

end Paired

/-! ## Parsing -/

/-- **Parsing pairs the brackets.**  Let the depth be counted in the cleaned source.

* A source is a program if and only if its depth is never negative and zero at the end.
* Otherwise the fault is the first `]` behind which the depth is negative, or, if there is none,
  the first `[` behind which the depth stays greater than before it.
* In a program nothing but the brackets jumps.  A `[` jumps to the first place where the depth
  comes back to what it was, and every jump can be taken back.
* The loops are the brackets with their partners, in the order of the openers, one for each `[`,
  and any two of them are apart or nested. -/
theorem parse_pairs_brackets (source : String) :
    let code := clean source
    ((∃ p, parse source = .ok p) ↔ (∀ k, 0 ≤ depth code k) ∧ depth code code.length = 0) ∧
    (∀ j, parse source = .error (.unmatched .closing j) ↔
      IsLeast {j | depth code (j + 1) < 0} j) ∧
    (∀ o, parse source = .error (.unmatched .opening o) ↔
      (∀ k, 0 ≤ depth code k) ∧ 0 < depth code code.length ∧
        IsLeast {o | code[o]? = some .loopOpen ∧ ∀ k, o < k → depth code o < depth code k} o) ∧
    ∀ p, parse source = .ok p →
      (∀ i, code[i]? ≠ some .loopOpen → code[i]? ≠ some .loopClose → p.target? i = none) ∧
      (∀ i, code[i]? = some .loopOpen → ∃ j, p.target? i = some j ∧
        IsLeast {j | i < j ∧ depth code (j + 1) = depth code i} j) ∧
      (∀ i, code[i]? = some .loopOpen ∨ code[i]? = some .loopClose →
        ∃ j, p.target? i = some j ∧ p.target? j = some i) ∧
      (∀ i j, (i, j) ∈ p.loops ↔ code[i]? = some .loopOpen ∧ p.target? i = some j) ∧
      (p.loops.Pairwise fun a b => a.1 < b.1) ∧
      p.loops.length = code.count .loopOpen ∧
      ∀ a ∈ p.loops, ∀ b ∈ p.loops,
        a = b ∨ a.2 < b.1 ∨ b.2 < a.1 ∨ (a.1 < b.1 ∧ b.2 < a.2) ∨ (b.1 < a.1 ∧ a.2 < b.2) := by
  intro code
  refine ⟨ofInstructions_eq_ok_iff code, ofInstructions_eq_closing_iff code,
    ofInstructions_eq_opening_iff code, ?_⟩
  intro p hp
  have h : Paired code p := paired_of_ofInstructions hp
  refine ⟨fun i => h.target?_eq_none, ?_, ?_, ?_, pairwise_loops p, h.length_loops,
    fun a ha b hb => h.apart_or_nested ha hb⟩
  · intro i hi
    obtain ⟨j, hj, hmatched⟩ := h.target?_opener hi
    exact ⟨j, hj, hmatched.isLeast⟩
  · rintro i (hopen | hclose)
    · obtain ⟨j, hj, _⟩ := h.target?_opener hopen
      exact ⟨j, hj, h.target?_comm.mp hj⟩
    · obtain ⟨j, hj, _⟩ := h.target?_closer hclose
      exact ⟨j, hj, h.target?_comm.mp hj⟩
  · intro i j
    rw [h.mem_loops]
    constructor
    · intro hmatched
      exact ⟨hmatched.opener, (h.target?_eq_some_iff i j).mpr (Or.inl hmatched)⟩
    · rintro ⟨hopen, hj⟩
      obtain ⟨j', hj', hmatched⟩ := h.target?_opener hopen
      rw [hj] at hj'
      cases hj'
      exact hmatched

/-- A loop inside a loop. -/
theorem parse_pairs_brackets_nested :
    ∃ p, parse "+[>[-]<]" = .ok p ∧ p.loops.length = 2 ∧
      ∃ j, p.target? 1 = some j ∧
        IsLeast {j | 1 < j ∧ depth (clean "+[>[-]<]") (j + 1) = depth (clean "+[>[-]<]") 1} j := by
  obtain ⟨p, hp⟩ : ∃ p, parse "+[>[-]<]" = .ok p := ⟨_, rfl⟩
  obtain ⟨_, hleast, _, _, _, hlength, _⟩ := (parse_pairs_brackets "+[>[-]<]").2.2.2 p hp
  exact ⟨p, hp, hlength, hleast 1 (by decide)⟩

end Program

end TapeTutor
