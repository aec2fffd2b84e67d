import TapeTutor.Generator
import TapeTutor.Proofs.Contract
import TapeTutor.Proofs.Simulation

/-!
# Generated programs print their bytes

The generator works on one cell and, when it may use loops, on the neighbour to its right.  The
invariant between its fragments is a store of the shape `⟨v :: rest, 0, _, _, _⟩`: the head is on
the first cell, that cell holds the byte reached so far, and `rest` is as it was.  A fragment that
multiplies needs a zero next to the cell and puts it back.

Each fragment has a tree and a contract with its exact price.

* `brings_plus`, `brings_minus`: counting, on any cell.
* `repeats_clear`, `repeats_transfer`, `repeats_gather`: the three loops, by induction on the cell
  that counts them down.
* `brings_product`: the product of two factors, corrected by a remainder.

Which fragment the generator picks depends on lengths only, and every candidate reaches the byte
(`Generator.Reaches`), so the choice does not matter.
-/

namespace TapeTutor

namespace Block

open Store

variable {rest i o : List UInt8} {n : Nat}

/-! ## Counting -/

/-- An action that adds a fixed amount to the cell, repeated. -/
theorem brings_replicate {a : Action} {d : UInt8}
    (ha : ∀ s position, perform position s a = .ok (s.put (s.cell + d))) (k : Nat) {s : Store}
    (hs : s.head < s.tape.length) :
    (ofActions (List.replicate k a)).Brings s
      { s.put (s.cell + UInt8.ofNat k * d) with spent := s.spent + k } := by
  induction k generalizing s with
  | zero =>
    have hself : s.put (s.cell + UInt8.ofNat 0 * d) = s := by
      simp [put, cell, hs]
    rw [hself]
    exact Brings.refl s
  | succ k ih =>
    have hnext := ih (s := s.tick.put (s.tick.cell + d)) (by simpa [put, tick] using hs)
    refine Brings.act (fun position => ha s.tick position) ?_
    have hcell : (s.tick.put (s.tick.cell + d)).cell = s.cell + d := by
      simp [cell, put, tick, hs]
    rw [hcell] at hnext
    have hsum : s.cell + d + UInt8.ofNat k * d = s.cell + UInt8.ofNat (k + 1) * d := by
      rw [UInt8.ofNat_add]
      grind
    rw [hsum] at hnext
    simpa [put, tick, Nat.add_assoc, Nat.add_comm 1] using hnext

/-- The tree that adds `k` to the cell. -/
def plus (k : Nat) : Block := ofActions (List.replicate k .increment)

/-- The tree that takes `k` from the cell. -/
def minus (k : Nat) : Block := ofActions (List.replicate k .decrement)

@[simp] theorem code_plus (k : Nat) : (plus k).code = Generator.plus k := by
  rw [plus, code_ofActions, List.map_replicate]
  rfl

@[simp] theorem code_minus (k : Nat) : (minus k).code = Generator.minus k := by
  rw [minus, code_ofActions, List.map_replicate]
  rfl

theorem brings_plus (k : Nat) {s : Store} (hs : s.head < s.tape.length) :
    (plus k).Brings s { s.put (s.cell + UInt8.ofNat k) with spent := s.spent + k } := by
  have h := brings_replicate (a := .increment) (d := 1) (fun _ _ => rfl) k hs
  rwa [UInt8.mul_one] at h

theorem brings_minus (k : Nat) {s : Store} (hs : s.head < s.tape.length) :
    (minus k).Brings s { s.put (s.cell - UInt8.ofNat k) with spent := s.spent + k } := by
  have hdec : ∀ s position, perform position s .decrement = .ok (s.put (s.cell + -1)) := by
    intro s position
    rw [← UInt8.sub_eq_add_neg]
    rfl
  have h := brings_replicate hdec k hs
  rwa [show s.cell + UInt8.ofNat k * -1 = s.cell - UInt8.ofNat k by grind] at h

/-- Counting up on the first cell. -/
theorem brings_plus_head {v w : UInt8} {k : Nat} (h : v + UInt8.ofNat k = w) :
    (plus k).Brings ⟨v :: rest, 0, i, o, n⟩ ⟨w :: rest, 0, i, o, n + k⟩ := by
  rw [← h]
  exact brings_plus k (by simp)

/-! ## The loops -/

theorem ofNat_succ_sub_one (k : Nat) : UInt8.ofNat (k + 1) - 1 = UInt8.ofNat k := by
  rw [UInt8.ofNat_add]
  exact UInt8.add_sub_cancel _ _

theorem ofNat_succ_ne_zero {k : Nat} (hk : k + 1 < 256) : UInt8.ofNat (k + 1) ≠ 0 := by
  intro h
  have hnat := congrArg UInt8.toNat h
  rw [UInt8.toNat_ofNat_of_lt' hk] at hnat
  exact Nat.succ_ne_zero k hnat

/-- `[-]` counts the cell down. -/
theorem repeats_clear (k : Nat) (hk : k < 256) (hn : 0 < n) :
    (act .decrement done).Repeats ⟨UInt8.ofNat k :: rest, 0, i, o, n⟩
      ⟨0 :: rest, 0, i, o, n + 2 * k⟩ := by
  induction k generalizing n with
  | zero => exact Repeats.stop rfl
  | succ k ih =>
    refine Repeats.round (t := ⟨UInt8.ofNat k :: rest, 0, i, o, n + 1⟩) hn
      (ofNat_succ_ne_zero hk) (Brings.act (fun _ => ?_) (Brings.refl _)) ?_
    · rw [← ofNat_succ_sub_one k]
      rfl
    · have h := ih (n := n + 2) (by omega) (by omega)
      rwa [show n + 2 + 2 * k = n + 2 * (k + 1) by omega] at h

/-- `[>⁺…⁺<-]` with `b` additions: adds `b` to the neighbour for each unit of the cell. -/
theorem repeats_transfer (b k : Nat) (hk : k < 256) (hn : 0 < n) (y : UInt8) :
    (act .right ((plus b).append (act .left (act .decrement done)))).Repeats
      ⟨UInt8.ofNat k :: y :: rest, 0, i, o, n⟩
      ⟨0 :: (y + UInt8.ofNat (k * b)) :: rest, 0, i, o, n + k * (b + 4)⟩ := by
  induction k generalizing n y with
  | zero =>
    rw [Nat.zero_mul, Nat.zero_mul, show y + UInt8.ofNat 0 = y from UInt8.add_zero y]
    exact Repeats.stop rfl
  | succ k ih =>
    have hplus : (plus b).Brings ⟨UInt8.ofNat (k + 1) :: y :: rest, 1, i, o, n + 1⟩
        ⟨UInt8.ofNat (k + 1) :: (y + UInt8.ofNat b) :: rest, 1, i, o, n + 1 + b⟩ :=
      brings_plus b (by simp)
    have hback : (act .left (act .decrement done)).Brings
        ⟨UInt8.ofNat (k + 1) :: (y + UInt8.ofNat b) :: rest, 1, i, o, n + 1 + b⟩
        ⟨UInt8.ofNat k :: (y + UInt8.ofNat b) :: rest, 0, i, o, n + 1 + b + 2⟩ := by
      refine Brings.act (fun _ => rfl) (Brings.act (fun _ => ?_) (Brings.refl _))
      rw [← ofNat_succ_sub_one k]
      rfl
    refine Repeats.round hn (ofNat_succ_ne_zero hk)
      (Brings.right (by simp) (hplus.append hback)) ?_
    have h := ih (n := n + 1 + b + 2 + 1) (by omega) (by omega) (y + UInt8.ofNat b)
    rw [UInt8.add_assoc, ← UInt8.ofNat_add, show b + k * b = (k + 1) * b by
      rw [Nat.succ_mul, Nat.add_comm], show n + 1 + b + 2 + 1 + k * (b + 4) =
        n + (k + 1) * (b + 4) by rw [Nat.succ_mul]; omega] at h
    exact h

/-- `[<⁺…⁺>-]` with `b` additions: adds `b` to the left neighbour for each unit of the cell. -/
theorem repeats_gather (b k : Nat) (hk : k < 256) (hn : 0 < n) (x : UInt8) :
    (act .left ((plus b).append (act .right (act .decrement done)))).Repeats
      ⟨x :: UInt8.ofNat k :: rest, 1, i, o, n⟩
      ⟨(x + UInt8.ofNat (k * b)) :: 0 :: rest, 1, i, o, n + k * (b + 4)⟩ := by
  induction k generalizing n x with
  | zero =>
    rw [Nat.zero_mul, Nat.zero_mul, show x + UInt8.ofNat 0 = x from UInt8.add_zero x]
    exact Repeats.stop rfl
  | succ k ih =>
    have hback : (act .right (act .decrement done)).Brings
        ⟨(x + UInt8.ofNat b) :: UInt8.ofNat (k + 1) :: rest, 0, i, o, n + 1 + b⟩
        ⟨(x + UInt8.ofNat b) :: UInt8.ofNat k :: rest, 1, i, o, n + 1 + b + 2⟩ := by
      refine Brings.right (by simp) (Brings.act (fun _ => ?_) (Brings.refl _))
      rw [← ofNat_succ_sub_one k]
      rfl
    refine Repeats.round hn (ofNat_succ_ne_zero hk)
      (Brings.act (fun _ => rfl) ((brings_plus_head rfl).append hback)) ?_
    have h := ih (n := n + 1 + b + 2 + 1) (by omega) (by omega) (x + UInt8.ofNat b)
    rw [UInt8.add_assoc, ← UInt8.ofNat_add, show b + k * b = (k + 1) * b by
      rw [Nat.succ_mul, Nat.add_comm], show n + 1 + b + 2 + 1 + k * (b + 4) =
        n + (k + 1) * (b + 4) by rw [Nat.succ_mul]; omega] at h
    exact h

/-- `[<+>-]` moves a cell to its left neighbour. -/
theorem repeats_move (k : Nat) (hk : k < 256) (hn : 0 < n) (x : UInt8) :
    (act .left (act .increment (act .right (act .decrement done)))).Repeats
      ⟨x :: UInt8.ofNat k :: rest, 1, i, o, n⟩
      ⟨(x + UInt8.ofNat k) :: 0 :: rest, 1, i, o, n + 5 * k⟩ := by
  have h := @repeats_gather rest i o n 1 k hk hn x
  rw [Nat.mul_one, Nat.mul_comm k] at h
  exact h

/-! ## Fragments -/

/-- The tree of `[-]`. -/
def clear : Block := loop (act .decrement done) done

@[simp] theorem code_clear : clear.code = Generator.clear := rfl

theorem brings_clear (v : UInt8) :
    clear.Brings ⟨v :: rest, 0, i, o, n⟩ ⟨0 :: rest, 0, i, o, n + 1 + 2 * v.toNat⟩ := by
  refine Brings.loop ?_ (Brings.refl _)
  have h : (act .decrement done).Repeats ⟨UInt8.ofNat v.toNat :: rest, 0, i, o, n + 1⟩
      ⟨0 :: rest, 0, i, o, n + 1 + 2 * v.toNat⟩ :=
    repeats_clear v.toNat v.toNat_lt (Nat.succ_pos n)
  rwa [UInt8.ofNat_toNat] at h

/-- The tree that puts `a` into the cell and makes `a * b` in its neighbour. -/
def multiply (a b : Nat) (rest : Block) : Block :=
  clear.append (act .right (clear.append (act .left ((plus a).append
    (loop (act .right ((plus b).append (act .left (act .decrement done)))) rest)))))

/-- The tree that corrects the neighbour and moves it into the cell. -/
def collect (up down : Nat) : Block :=
  act .right ((plus up).append ((minus down).append
    (loop (act .left (act .increment (act .right (act .decrement done)))) (act .left done))))

theorem code_multiply_collect (a b up down : Nat) :
    (multiply a b (collect up down)).code = Generator.product a b up down := by
  simp [multiply, collect, code, Generator.product, Action.instruction]

theorem brings_multiply (v : UInt8) {a : Nat} (ha : a < 256) (b : Nat) {c : Block} {u : Store}
    (hc : c.Brings
      ⟨0 :: UInt8.ofNat (a * b) :: rest, 0, i, o, n + (2 * v.toNat + a + a * (b + 4) + 5)⟩ u) :
    (multiply a b c).Brings ⟨v :: 0 :: rest, 0, i, o, n⟩ u := by
  have hneighbour : clear.Brings ⟨0 :: 0 :: rest, 1, i, o, n + 1 + 2 * v.toNat + 1⟩
      ⟨0 :: 0 :: rest, 1, i, o, n + 1 + 2 * v.toNat + 2⟩ :=
    Brings.loop (Repeats.stop rfl) (Brings.refl _)
  have hplus : (plus a).Brings ⟨0 :: 0 :: rest, 0, i, o, n + 1 + 2 * v.toNat + 3⟩
      ⟨UInt8.ofNat a :: 0 :: rest, 0, i, o, n + 1 + 2 * v.toNat + 3 + a⟩ :=
    brings_plus_head (UInt8.zero_add _)
  have hloop : (act .right ((plus b).append (act .left (act .decrement done)))).Repeats
      ⟨UInt8.ofNat a :: 0 :: rest, 0, i, o, n + 1 + 2 * v.toNat + 3 + a + 1⟩
      ⟨0 :: (0 + UInt8.ofNat (a * b)) :: rest, 0, i, o,
        n + 1 + 2 * v.toNat + 3 + a + 1 + a * (b + 4)⟩ :=
    repeats_transfer b a ha (by omega) 0
  rw [UInt8.zero_add, show n + 1 + 2 * v.toNat + 3 + a + 1 + a * (b + 4) =
    n + (2 * v.toNat + a + a * (b + 4) + 5) by omega] at hloop
  exact (brings_clear v).append (Brings.right (by simp) (hneighbour.append
    (Brings.act (fun _ => rfl) (hplus.append (Brings.loop hloop hc)))))

theorem brings_collect {x t : UInt8} {up down : Nat}
    (ht : x + UInt8.ofNat up - UInt8.ofNat down = t) :
    (collect up down).Brings ⟨0 :: x :: rest, 0, i, o, n⟩
      ⟨t :: 0 :: rest, 0, i, o, n + (up + down + 5 * t.toNat + 3)⟩ := by
  have hup : (plus up).Brings ⟨0 :: x :: rest, 1, i, o, n + 1⟩
      ⟨0 :: (x + UInt8.ofNat up) :: rest, 1, i, o, n + 1 + up⟩ := brings_plus up (by simp)
  have hdown : (minus down).Brings ⟨0 :: (x + UInt8.ofNat up) :: rest, 1, i, o, n + 1 + up⟩
      ⟨0 :: t :: rest, 1, i, o, n + 1 + up + down⟩ := by
    rw [← ht]
    exact brings_minus down (by simp)
  have hmove : (act .left (act .increment (act .right (act .decrement done)))).Repeats
      ⟨0 :: UInt8.ofNat t.toNat :: rest, 1, i, o, n + 1 + up + down + 1⟩
      ⟨(0 + UInt8.ofNat t.toNat) :: 0 :: rest, 1, i, o, n + 1 + up + down + 1 + 5 * t.toNat⟩ :=
    repeats_move t.toNat t.toNat_lt (by omega) 0
  rw [UInt8.ofNat_toNat, UInt8.zero_add] at hmove
  rw [show n + (up + down + 5 * t.toNat + 3) = n + 1 + up + down + 1 + 5 * t.toNat + 1 by omega]
  exact Brings.right (by simp) (hup.append (hdown.append (Brings.loop hmove
    (Brings.act (fun _ => rfl) (Brings.refl _)))))

end Block

/-! ## From byte to byte -/

namespace Generator

open Block

/-- In front of the cells `rest`, the instructions take the first cell from `v` to `w`, leave
everything else as it was, and never take more than 3999 steps. -/
def Reaches (rest : List UInt8) (code : List Instruction) (v w : UInt8) : Prop :=
  ∃ b : Block, b.code = code ∧ ∃ k ≤ 3999, ∀ i o n,
    b.Brings ⟨v :: rest, 0, i, o, n⟩ ⟨w :: rest, 0, i, o, n + k⟩

variable {rest : List UInt8}

theorem reaches_plus {v w : UInt8} {k : Nat} (hk : k ≤ 255) (h : v + UInt8.ofNat k = w) :
    Reaches rest (plus k) v w := by
  exact ⟨Block.plus k, code_plus k, k, by omega, fun i o n => brings_plus_head h⟩

theorem reaches_minus {v w : UInt8} {k : Nat} (hk : k ≤ 255) (h : v - UInt8.ofNat k = w) :
    Reaches rest (minus k) v w := by
  refine ⟨Block.minus k, code_minus k, k, by omega, fun i o n => ?_⟩
  rw [← h]
  exact brings_minus k (by simp)

theorem ofNat_toNat_sub {v w : UInt8} (h : v.toNat ≤ w.toNat) :
    UInt8.ofNat (w.toNat - v.toNat) = w - v := by
  rw [UInt8.ofNat_sub h, UInt8.ofNat_toNat, UInt8.ofNat_toNat]

/-- Counting up or down reaches the byte, with or without going round. -/
theorem reaches_difference (o : GeneratorOptions) (v w : UInt8) :
    Reaches rest (difference o v w) v w := by
  have hup : v + (w - v) = w := by grind
  have hdown : v - (v - w) = w := by grind
  have hv := v.toNat_lt
  have hw := w.toNat_lt
  unfold difference
  split
  · dsimp only
    split
    · have hlt := (w - v).toNat_lt
      exact reaches_plus (by omega) (by rw [UInt8.ofNat_toNat, hup])
    · have hlt := (v - w).toNat_lt
      exact reaches_minus (by omega) (by rw [UInt8.ofNat_toNat, hdown])
  · by_cases hle : v.toNat ≤ w.toNat
    · rw [show v.toNat - w.toNat = 0 by omega, minus, List.replicate_zero, List.append_nil]
      exact reaches_plus (by omega) (by rw [ofNat_toNat_sub hle, hup])
    · rw [show w.toNat - v.toNat = 0 by omega, plus, List.replicate_zero, List.nil_append]
      exact reaches_minus (by omega) (by rw [ofNat_toNat_sub (by omega), hdown])

/-- Clearing the cell and counting up reaches the byte from any other. -/
theorem reaches_count (v w : UInt8) : Reaches rest (count w) v w := by
  have hv := v.toNat_lt
  have hw := w.toNat_lt
  refine ⟨Block.clear.append (Block.plus w.toNat), by rw [code_append, code_clear, code_plus]; rfl,
    1 + 2 * v.toNat + w.toNat, by omega, fun i o n => ?_⟩
  have hplus : (Block.plus w.toNat).Brings ⟨0 :: rest, 0, i, o, n + 1 + 2 * v.toNat⟩
      ⟨w :: rest, 0, i, o, n + (1 + 2 * v.toNat + w.toNat)⟩ := by
    rw [show n + (1 + 2 * v.toNat + w.toNat) = n + 1 + 2 * v.toNat + w.toNat by omega]
    exact brings_plus_head (by rw [UInt8.ofNat_toNat, UInt8.zero_add])
  exact (brings_clear v).append hplus

/-- The product with the nearest factor misses the byte by no more than half of the other
factor, unless it is the factor itself. -/
theorem cofactor_bounds (t : Nat) {a : Nat} (ha : 0 < a) :
    (2 * (a * cofactor t a) ≤ 2 * t + a ∧ 2 * t ≤ 2 * (a * cofactor t a) + a) ∨
      (cofactor t a = 1 ∧ 2 * t < a) := by
  have hlow : 2 * a * ((2 * t + a) / (2 * a)) ≤ 2 * t + a := Nat.mul_div_le _ _
  have hhigh : 2 * t + a < 2 * a * ((2 * t + a) / (2 * a)) + 2 * a := by
    have h := Nat.lt_mul_div_succ (2 * t + a) (b := 2 * a) (by omega)
    rwa [Nat.mul_add, Nat.mul_one] at h
  rw [Nat.mul_assoc] at hlow hhigh
  by_cases hq : (2 * t + a) / (2 * a) = 0
  · right
    rw [hq] at hhigh
    exact ⟨by rw [cofactor, hq]; rfl, by omega⟩
  · left
    have hb : cofactor t a = (2 * t + a) / (2 * a) := Nat.max_eq_right (Nat.pos_of_ne_zero hq)
    rw [hb]
    omega

/-- The corrected product is the byte. -/
theorem ofNat_corrected (x : Nat) (w : UInt8) :
    UInt8.ofNat x + UInt8.ofNat (w.toNat - x) - UInt8.ofNat (x - w.toNat) = w := by
  by_cases hle : x ≤ w.toNat
  · rw [Nat.sub_eq_zero_of_le hle, UInt8.ofNat_sub hle, UInt8.ofNat_toNat]
    grind
  · rw [Nat.sub_eq_zero_of_le (show w.toNat ≤ x by omega), UInt8.ofNat_sub (by omega),
      UInt8.ofNat_toNat]
    grind

/-- Multiplying reaches the byte, given a zero to work on, and the worst factors stay below the
bound. -/
theorem reaches_productFor (v w : UInt8) {a : Nat} (hpos : 0 < a) (ha : a < 256) :
    Reaches (0 :: rest) (productFor w a) v w := by
  have hv := v.toNat_lt
  have hw := w.toNat_lt
  refine ⟨multiply a (cofactor w.toNat a) (collect (w.toNat - a * cofactor w.toNat a)
      (a * cofactor w.toNat a - w.toNat)), code_multiply_collect _ _ _ _,
    (2 * v.toNat + a + a * (cofactor w.toNat a + 4) + 5) +
      ((w.toNat - a * cofactor w.toNat a) + (a * cofactor w.toNat a - w.toNat) +
        5 * w.toNat + 3), ?_, fun i o n => ?_⟩
  · rw [Nat.mul_add]
    rcases cofactor_bounds w.toNat hpos with ⟨hlow, hhigh⟩ | ⟨hone, hsmall⟩
    · omega
    · rw [hone, Nat.mul_one]
      omega
  · refine brings_multiply v ha _ ?_
    rw [← Nat.add_assoc n (_ + 5) _]
    exact brings_collect (ofNat_corrected _ w)

theorem Reaches.shorter {s t : List Instruction} {v w : UInt8} (hs : Reaches rest s v w)
    (ht : Reaches rest t v w) : Reaches rest (shorter s t) v w := by
  unfold Generator.shorter
  split
  · exact ht
  · exact hs

theorem reaches_freshStart (o : GeneratorOptions) (v w : UInt8) :
    Reaches (0 :: rest) (freshStart o w) v w := by
  unfold freshStart
  split
  · exact reaches_count v w
  · -- whatever is best so far reaches the byte, and so does every candidate
    have hfactor := o.maxLoopFactor.toNat_lt
    refine List.foldlRecOn (motive := fun best => Reaches (0 :: rest) best v w) _ _
      (reaches_count v w) fun best hbest a ha => ?_
    obtain ⟨hlow, hhigh⟩ := List.mem_range'_1.mp ha
    exact hbest.shorter (reaches_productFor v w (by omega) (by omega))

theorem reaches_reach (o : GeneratorOptions) (v w : UInt8)
    (hrest : o.useLoops = true → ∃ rest', rest = 0 :: rest') : Reaches rest (reach o v w) v w := by
  unfold reach
  split
  · next hloops =>
    obtain ⟨rest', rfl⟩ := hrest hloops
    exact (reaches_difference o v w).shorter (reaches_freshStart o v w)
  · exact reaches_difference o v w

/-- Printing a list of bytes: the cell ends on the last one, or where it was. -/
theorem exists_brings_print (o : GeneratorOptions) (v : UInt8) (bytes : List UInt8)
    (hrest : o.useLoops = true → ∃ rest', rest = 0 :: rest') :
    ∃ b : Block, b.code = print o v bytes ∧ ∃ k ≤ 4000 * bytes.length, ∀ i out n,
      b.Brings ⟨v :: rest, 0, i, out, n⟩
        ⟨bytes.getLast?.getD v :: rest, 0, i, out ++ bytes, n + k⟩ := by
  induction bytes generalizing v with
  | nil =>
    refine ⟨.done, rfl, 0, Nat.le_refl _, fun i out n => ?_⟩
    rw [List.append_nil]
    exact Brings.refl _
  | cons w bytes ih =>
    obtain ⟨b, hb, k, hk, hreach⟩ := reaches_reach o v w hrest
    obtain ⟨c, hc, l, hl, hprint⟩ := ih w
    refine ⟨b.append (.act .output c), ?_, k + 1 + l, ?_, fun i out n => ?_⟩
    · rw [code_append, hb, code, hc]
      rfl
    · rw [List.length_cons]
      omega
    · rw [List.getLast?_cons, Option.getD_some, show out ++ w :: bytes = (out ++ [w]) ++ bytes by
        simp, show n + (k + 1 + l) = n + k + 1 + l by omega]
      exact (hreach i out n).append
        (Brings.act (fun _ => rfl) (hprint i (out ++ [w]) (n + k + 1)))

end Generator

namespace Interpreter

/-- **Generated programs print their bytes.**  With a neighbour to work on if loops are allowed,
and 4000 instructions for each byte, the program the generator writes succeeds, prints exactly
the bytes, and leaves the head on the first cell, the last byte under it and zeros elsewhere. -/
theorem execute_generate (it : Interpreter) (o : GeneratorOptions) (bytes : List UInt8)
    (hvalid : it.config.Valid) (hsize : o.useLoops = true → 2 ≤ it.config.memorySize)
    (hlimit : 4000 * bytes.length ≤ it.config.maxIterations) :
    ∃ c, (it.execute (spell (generate o bytes))).1 = .ok c ∧
      c.output = bytes.toArray ∧
      Text.showBytes c.output = String.ofList (bytes.map fun b => Char.ofNat b.toNat) ∧
      c.iterations ≤ 4000 * bytes.length ∧
      (it.execute (spell (generate o bytes))).2.machine.head = 0 ∧
      (it.execute (spell (generate o bytes))).2.machine.tape.toList =
        bytes.getLast?.getD 0 :: List.replicate (it.config.memorySize - 1) 0 := by
  have hrest : o.useLoops = true →
      ∃ rest', List.replicate (it.config.memorySize - 1) (0 : UInt8) = 0 :: rest' := by
    intro hloops
    have h := hsize hloops
    exact ⟨List.replicate (it.config.memorySize - 2) 0, by
      rw [← List.replicate_succ, show it.config.memorySize - 2 + 1 = it.config.memorySize - 1 by
        omega]⟩
  obtain ⟨b, hb, k, hk, hbrings⟩ := Generator.exists_brings_print o 0 bytes hrest
  have hstart : Store.fresh it.config.memorySize it.config.input.toList =
      ⟨0 :: List.replicate (it.config.memorySize - 1) 0, 0, it.config.input.toList, [], 0⟩ := by
    have hpos := hvalid.1
    rw [← List.replicate_succ, show it.config.memorySize - 1 + 1 = it.config.memorySize by omega]
    rfl
  have hcode : b.code = clean (spell (generate o bytes)) := by
    rw [clean_spell]
    exact hb
  have hagrees := execute_agrees_run it hcode
  rw [hstart, (hbrings it.config.input.toList [] 0).run_eq _ _ (by simp only; omega)] at hagrees
  obtain ⟨c, hc, houtput, hspent, htape, hhead⟩ := hagrees
  have hbytes : c.output = bytes.toArray := by
    apply Array.toList_inj.mp
    rw [houtput]
    rfl
  refine ⟨c, hc, hbytes, ?_, ?_, hhead, htape⟩
  · rw [hbytes]
    rfl
  · rw [hspent]
    simp only
    omega

/-- Two cells are enough for the loops. -/
theorem execute_generate_two_cells :
    ∃ c, ((fresh { memorySize := 2, maxIterations := 12000 }).execute
        (spell (generate {} [72, 105, 10]))).1 = .ok c ∧
      c.output = #[72, 105, 10] ∧
      Text.showBytes c.output = String.ofList ([72, 105, 10].map fun n => Char.ofNat n) ∧
      c.iterations ≤ 12000 ∧
      ((fresh { memorySize := 2, maxIterations := 12000 }).execute
        (spell (generate {} [72, 105, 10]))).2.machine.head = 0 ∧
      ((fresh { memorySize := 2, maxIterations := 12000 }).execute
        (spell (generate {} [72, 105, 10]))).2.machine.tape.toList = [10, 0] :=
  execute_generate (fresh { memorySize := 2, maxIterations := 12000 }) {} [72, 105, 10]
    (by decide) (by decide) (by decide)

end Interpreter

end TapeTutor
