import TapeTutor.Catalog.Exercises
import TapeTutor.Proofs.Templates

/-!
# The comparison of two bytes

The solution of one exercise reads two bytes and says which one is greater.  It takes units off both
of them in turn and looks at what is left over.  A unit cannot be taken off a cell without a look at
the cell, and a look at a cell is a loop that empties it, so the second byte has to be carried away
and back for every unit of the first one.  That makes the program quadratic.

The first five cells are the first byte, the second byte, the surplus of the first one, a note and a
place for the second byte to be carried to.  Two more are used to print.

* A round notes a unit.  If there is something left of the second byte, a unit is taken off it and
  the note is withdrawn (`repeats_discount`); otherwise the note becomes a surplus (`brings_settle`).
  Both cases are one contract, in numbers that stop at zero (`brings_pass`).
* The loop leaves `y - x` of the second byte and a surplus of `x - y` (`repeats_pass`).  A bound for
  the longest round times the number of rounds would exceed a million.  The rounds get cheaper as the
  second byte runs out, and their sum does not (`passesPrice_le`).
* Of the three branches that print, one runs.  They are one fragment with three approaches
  (`brings_verdict`): take down the flag, print, and go back to a cell that is zero.
-/

namespace TapeTutor

namespace Block

open Store

variable {rest i o : List UInt8} {n : Nat}

/-! ## Carrying to the left -/

/-- The body of a loop that takes one from a cell and adds it to the cell `d` to the left. -/
def fetch (d : Nat) : Block :=
  act .decrement ((lefts d).append (act .increment (rights d)))

/-- One round: from a cell to the one before `mid` and back. -/
theorem brings_fetch (x y : UInt8) (mid : List UInt8) :
    (fetch (mid.length + 1)).Brings ⟨y :: (mid ++ x :: rest), mid.length + 1, i, o, n⟩
      ⟨(y + 1) :: (mid ++ (x - 1) :: rest), mid.length + 1, i, o,
        n + (2 * (mid.length + 1) + 2)⟩ := by
  have hthere : (lefts (mid.length + 1)).Brings
      ⟨y :: (mid ++ (x - 1) :: rest), mid.length + 1, i, o, n + 1⟩
      ⟨y :: (mid ++ (x - 1) :: rest), 0, i, o, n + 1 + (mid.length + 1)⟩ := by
    have h := brings_lefts (mid.length + 1)
      (s := ⟨y :: (mid ++ (x - 1) :: rest), mid.length + 1, i, o, n + 1⟩) (Nat.le_refl _)
    simpa only [Nat.sub_self] using h
  have hback : (rights (mid.length + 1)).Brings
      ⟨(y + 1) :: (mid ++ (x - 1) :: rest), 0, i, o, n + 1 + (mid.length + 1) + 1⟩
      ⟨(y + 1) :: (mid ++ (x - 1) :: rest), mid.length + 1, i, o,
        n + (2 * (mid.length + 1) + 2)⟩ := by
    have h := brings_rights (mid.length + 1)
      (s := ⟨(y + 1) :: (mid ++ (x - 1) :: rest), 0, i, o, n + 1 + (mid.length + 1) + 1⟩)
      (by simp)
    rwa [Nat.zero_add, show n + 1 + (mid.length + 1) + 1 + (mid.length + 1) =
      n + (2 * (mid.length + 1) + 2) by omega] at h
  refine Brings.act (t := ⟨y :: (mid ++ (x - 1) :: rest), mid.length + 1, i, o, n + 1⟩)
    (fun position => ?_) (hthere.append (Brings.act (fun _ => rfl) hback))
  simp [perform, put, cell, tick]

/-- The loop, by induction on the cell that it counts down. -/
theorem repeats_fetch (k : Nat) (hk : k < 256) (hn : 0 < n) (y : UInt8) (mid : List UInt8) :
    (fetch (mid.length + 1)).Repeats
      ⟨y :: (mid ++ UInt8.ofNat k :: rest), mid.length + 1, i, o, n⟩
      ⟨(y + UInt8.ofNat k) :: (mid ++ 0 :: rest), mid.length + 1, i, o,
        n + k * (2 * (mid.length + 1) + 3)⟩ := by
  induction k generalizing n y with
  | zero =>
    rw [Nat.zero_mul, show y + UInt8.ofNat 0 = y from UInt8.add_zero y]
    exact Repeats.stop (by simp [cell])
  | succ k ih =>
    have hround := @brings_fetch rest i o n (UInt8.ofNat (k + 1)) y mid
    rw [ofNat_succ_sub_one] at hround
    refine Repeats.round hn (by simpa [cell] using ofNat_succ_ne_zero hk) hround ?_
    have h := ih (n := n + (2 * (mid.length + 1) + 2) + 1) (by omega) (by omega) (y + 1)
    rw [show y + 1 + UInt8.ofNat k = y + UInt8.ofNat (k + 1) by rw [UInt8.ofNat_add]; grind,
      show n + (2 * (mid.length + 1) + 2) + 1 + k * (2 * (mid.length + 1) + 3) =
        n + (k + 1) * (2 * (mid.length + 1) + 3) by rw [Nat.succ_mul k]; omega] at h
    exact h

/-! ## One unit of each byte -/

/-- The tree that takes one from the second byte, without losing the rest of it, and takes back the
unit that was noted for the first one. -/
def discount : Block :=
  act .decrement (loop (carry 3 1) ((rights 2).append (act .decrement (lefts 2))))

/-- The tree that puts the rest of the second byte back and adds what was noted to the surplus of
the first one. -/
def settle : Block :=
  (rights 3).append (loop (fetch 3) (act .left (loop (fetch 1) (lefts 3))))

/-- The body of the loop over the first byte: it notes a unit, and either that unit is taken off the
second byte or, if nothing is left of it, it is a surplus. -/
def pass : Block :=
  act .decrement ((rights 3).append (act .increment ((lefts 2).append (loop discount settle))))

theorem repeats_discount {y : Nat} (hy : y + 1 < 256) (hn : 0 < n) (x z : UInt8) :
    discount.Repeats ⟨x :: UInt8.ofNat (y + 1) :: z :: 1 :: 0 :: rest, 1, i, o, n⟩
      ⟨x :: 0 :: z :: 0 :: UInt8.ofNat y :: rest, 1, i, o, n + (9 * y + 8)⟩ := by
  have hcarry : (carry 3 1).Repeats
      ⟨x :: UInt8.ofNat y :: z :: 1 :: 0 :: rest, 1, i, o, n + 1 + 1⟩
      ⟨x :: 0 :: z :: 1 :: UInt8.ofNat y :: rest, 1, i, o, n + 1 + 1 + 9 * y⟩ := by
    have h := (@repeats_carry rest i o (n + 1 + 1) 1 y (by omega) (by omega) 0 [z, 1]).behind [x]
    rw [Nat.mul_one, UInt8.zero_add, Nat.mul_comm y] at h
    exact h
  have hthere : (rights 2).Brings
      ⟨x :: 0 :: z :: 1 :: UInt8.ofNat y :: rest, 1, i, o, n + 1 + 1 + 9 * y⟩
      ⟨x :: 0 :: z :: 1 :: UInt8.ofNat y :: rest, 3, i, o, n + 1 + 1 + 9 * y + 2⟩ :=
    brings_rights 2 (by simp)
  have hback : (lefts 2).Brings
      ⟨x :: 0 :: z :: 0 :: UInt8.ofNat y :: rest, 3, i, o, n + 1 + 1 + 9 * y + 2 + 1⟩
      ⟨x :: 0 :: z :: 0 :: UInt8.ofNat y :: rest, 1, i, o, n + 1 + 1 + 9 * y + 2 + 1 + 2⟩ :=
    brings_lefts 2 (by simp)
  have hbody : discount.Brings ⟨x :: UInt8.ofNat (y + 1) :: z :: 1 :: 0 :: rest, 1, i, o, n⟩
      ⟨x :: 0 :: z :: 0 :: UInt8.ofNat y :: rest, 1, i, o, n + 1 + 1 + 9 * y + 2 + 1 + 2⟩ := by
    refine Brings.act (t := ⟨x :: UInt8.ofNat y :: z :: 1 :: 0 :: rest, 1, i, o, n + 1⟩)
      (fun _ => ?_) (Brings.loop hcarry (hthere.append (Brings.act (fun _ => ?_) hback)))
    · rw [← ofNat_succ_sub_one y]
      rfl
    · simp [perform, put, cell, tick]
  rw [show n + (9 * y + 8) = n + 1 + 1 + 9 * y + 2 + 1 + 2 + 1 by omega]
  refine Repeats.once hn ?_ hbody rfl
  exact ofNat_succ_ne_zero hy

theorem brings_settle {f g : Nat} (hf : f < 256) (hg : g < 256) (x y z : UInt8) :
    settle.Brings ⟨x :: y :: z :: UInt8.ofNat f :: UInt8.ofNat g :: rest, 1, i, o, n⟩
      ⟨x :: (y + UInt8.ofNat g) :: (z + UInt8.ofNat f) :: 0 :: 0 :: rest, 0, i, o,
        n + (9 * g + 5 * f + 9)⟩ := by
  have hthere : (rights 3).Brings ⟨x :: y :: z :: UInt8.ofNat f :: UInt8.ofNat g :: rest, 1, i, o, n⟩
      ⟨x :: y :: z :: UInt8.ofNat f :: UInt8.ofNat g :: rest, 4, i, o, n + 3⟩ :=
    brings_rights 3 (by simp)
  have hrest : (fetch 3).Repeats
      ⟨x :: y :: z :: UInt8.ofNat f :: UInt8.ofNat g :: rest, 4, i, o, n + 3 + 1⟩
      ⟨x :: (y + UInt8.ofNat g) :: z :: UInt8.ofNat f :: 0 :: rest, 4, i, o,
        n + 3 + 1 + 9 * g⟩ := by
    have h := (@repeats_fetch rest i o (n + 3 + 1) g hg (by omega) y [z, UInt8.ofNat f]).behind [x]
    rw [Nat.mul_comm g] at h
    exact h
  have hnoted : (fetch 1).Repeats
      ⟨x :: (y + UInt8.ofNat g) :: z :: UInt8.ofNat f :: 0 :: rest, 3, i, o,
        n + 3 + 1 + 9 * g + 1 + 1⟩
      ⟨x :: (y + UInt8.ofNat g) :: (z + UInt8.ofNat f) :: 0 :: 0 :: rest, 3, i, o,
        n + 3 + 1 + 9 * g + 1 + 1 + 5 * f⟩ := by
    have h := (@repeats_fetch (0 :: rest) i o (n + 3 + 1 + 9 * g + 1 + 1) f hf (by omega) z
      []).behind [x, y + UInt8.ofNat g]
    rw [Nat.mul_comm f] at h
    exact h
  have hback : (lefts 3).Brings
      ⟨x :: (y + UInt8.ofNat g) :: (z + UInt8.ofNat f) :: 0 :: 0 :: rest, 3, i, o,
        n + 3 + 1 + 9 * g + 1 + 1 + 5 * f⟩
      ⟨x :: (y + UInt8.ofNat g) :: (z + UInt8.ofNat f) :: 0 :: 0 :: rest, 0, i, o,
        n + 3 + 1 + 9 * g + 1 + 1 + 5 * f + 3⟩ :=
    brings_lefts 3 (by simp)
  rw [show n + (9 * g + 5 * f + 9) = n + 3 + 1 + 9 * g + 1 + 1 + 5 * f + 3 by omega]
  exact hthere.append (Brings.loop hrest (Brings.act (fun _ => rfl) (Brings.loop hnoted hback)))

/-- The price of a round, when so much is left of the second byte. -/
def passPrice : Nat → Nat
  | 0 => 22
  | y + 1 => 18 * y + 25

/-- **One round** takes a unit off both bytes, or counts it as a surplus if nothing is left of the
second one. -/
theorem brings_pass {y : Nat} (hy : y < 256) (x z : UInt8) :
    pass.Brings ⟨x :: UInt8.ofNat y :: z :: 0 :: 0 :: rest, 0, i, o, n⟩
      ⟨(x - 1) :: UInt8.ofNat (y - 1) :: (z + UInt8.ofNat (1 - y)) :: 0 :: 0 :: rest, 0, i, o,
        n + passPrice y⟩ := by
  have hnote : ∀ {c : Block} {u : Store},
      c.Brings ⟨(x - 1) :: UInt8.ofNat y :: z :: 1 :: 0 :: rest, 1, i, o, n + 1 + 3 + 1 + 2⟩ u →
      (act .decrement ((rights 3).append (act .increment ((lefts 2).append c)))).Brings
        ⟨x :: UInt8.ofNat y :: z :: 0 :: 0 :: rest, 0, i, o, n⟩ u := by
    intro c u hc
    have hthere : (rights 3).Brings
        ⟨(x - 1) :: UInt8.ofNat y :: z :: 0 :: 0 :: rest, 0, i, o, n + 1⟩
        ⟨(x - 1) :: UInt8.ofNat y :: z :: 0 :: 0 :: rest, 3, i, o, n + 1 + 3⟩ :=
      brings_rights 3 (by simp)
    have hback : (lefts 2).Brings
        ⟨(x - 1) :: UInt8.ofNat y :: z :: 1 :: 0 :: rest, 3, i, o, n + 1 + 3 + 1⟩
        ⟨(x - 1) :: UInt8.ofNat y :: z :: 1 :: 0 :: rest, 1, i, o, n + 1 + 3 + 1 + 2⟩ :=
      brings_lefts 2 (by simp)
    exact Brings.act (fun _ => rfl) (hthere.append (Brings.act (fun _ => rfl) (hback.append hc)))
  cases y with
  | zero =>
    refine hnote (Brings.loop (Repeats.stop rfl) ?_)
    exact brings_settle (f := 1) (g := 0) (by omega) (by omega) (x - 1) 0 z
  | succ y =>
    refine hnote (Brings.loop (repeats_discount hy (Nat.succ_pos _) (x - 1) z) ?_)
    have h := @brings_settle rest i o (n + 1 + 3 + 1 + 2 + 1 + (9 * y + 8)) 0 y (by omega)
      (by omega) (x - 1) 0 z
    rw [UInt8.zero_add, show n + 1 + 3 + 1 + 2 + 1 + (9 * y + 8) + (9 * y + 5 * 0 + 9) =
      n + passPrice (y + 1) by rw [passPrice]; omega] at h
    rw [Nat.add_sub_cancel, show 1 - (y + 1) = 0 by omega]
    exact h

/-! ## The loop over the first byte -/

/-- The price of the loop over the first byte. -/
def passesPrice : Nat → Nat → Nat
  | 0, _ => 0
  | x + 1, y => passPrice y + 1 + passesPrice x (y - 1)

/-- The loop is quadratic in the second byte and linear in the first one. -/
theorem passesPrice_le (x y : Nat) : passesPrice x y ≤ 9 * (y * y) + 26 * x := by
  induction x generalizing y with
  | zero => exact Nat.zero_le _
  | succ x ih =>
    have h := ih (y - 1)
    cases y with
    | zero =>
      rw [passesPrice, passPrice]
      omega
    | succ y =>
      rw [Nat.add_sub_cancel] at h
      rw [passesPrice, passPrice, Nat.add_sub_cancel,
        show (y + 1) * (y + 1) = y * y + 2 * y + 1 by rw [Nat.succ_mul, Nat.mul_succ]; omega]
      omega

/-- **The whole loop**, by induction on the first byte, leaves what one byte has over the other. -/
theorem repeats_pass {x y : Nat} (hx : x < 256) (hy : y < 256) (hn : 0 < n) (z : UInt8) :
    pass.Repeats ⟨UInt8.ofNat x :: UInt8.ofNat y :: z :: 0 :: 0 :: rest, 0, i, o, n⟩
      ⟨0 :: UInt8.ofNat (y - x) :: (z + UInt8.ofNat (x - y)) :: 0 :: 0 :: rest, 0, i, o,
        n + passesPrice x y⟩ := by
  induction x generalizing y z n with
  | zero =>
    rw [Nat.zero_sub, show z + UInt8.ofNat 0 = z from UInt8.add_zero z]
    exact Repeats.stop rfl
  | succ x ih =>
    have hround := @brings_pass rest i o n y hy (UInt8.ofNat (x + 1)) z
    rw [ofNat_succ_sub_one] at hround
    refine Repeats.round hn (ofNat_succ_ne_zero hx) hround ?_
    have h := ih (y := y - 1) (n := n + passPrice y + 1) (by omega) (by omega) (by omega)
      (z + UInt8.ofNat (1 - y))
    rw [UInt8.add_assoc, ← UInt8.ofNat_add, show 1 - y + (x - (y - 1)) = x + 1 - y by omega,
      show y - 1 - x = y - (x + 1) by omega,
      show n + passPrice y + 1 + passesPrice x (y - 1) = n + passesPrice (x + 1) y by
        rw [passesPrice]; omega] at h
    exact h

/-! ## Saying the result -/

/-- The tree that makes 60 two cells to the right, adds `k` to it, prints it and clears it. -/
def announce (k : Nat) : Block :=
  (rights 3).append ((plus 6).append
    (loop (act .left ((plus 10).append (act .right (act .decrement done))))
      (act .left ((plus k).append (act .output clear)))))

theorem brings_announce {k : Nat} (hk : 60 + k < 256) (f g : UInt8) :
    (announce k).Brings ⟨f :: g :: 0 :: 0 :: rest, 0, i, o, n⟩
      ⟨f :: g :: 0 :: 0 :: rest, 2, i, o ++ [UInt8.ofNat (60 + k)], n + (217 + 3 * k)⟩ := by
  have hthere : (rights 3).Brings ⟨f :: g :: 0 :: 0 :: rest, 0, i, o, n⟩
      ⟨f :: g :: 0 :: 0 :: rest, 3, i, o, n + 3⟩ := brings_rights 3 (by simp)
  have hsix : (plus 6).Brings ⟨f :: g :: 0 :: 0 :: rest, 3, i, o, n + 3⟩
      ⟨f :: g :: 0 :: UInt8.ofNat 6 :: rest, 3, i, o, n + 3 + 6⟩ :=
    (brings_plus_head (UInt8.zero_add _)).behind [f, g, 0]
  have hsixty : (act .left ((plus 10).append (act .right (act .decrement done)))).Repeats
      ⟨f :: g :: 0 :: UInt8.ofNat 6 :: rest, 3, i, o, n + 3 + 6 + 1⟩
      ⟨f :: g :: UInt8.ofNat 60 :: 0 :: rest, 3, i, o, n + 3 + 6 + 1 + 84⟩ :=
    (repeats_gather 10 6 (by omega) (by omega) 0).behind [f, g]
  have hadd : (plus k).Brings
      ⟨f :: g :: UInt8.ofNat 60 :: 0 :: rest, 2, i, o, n + 3 + 6 + 1 + 84 + 1⟩
      ⟨f :: g :: UInt8.ofNat (60 + k) :: 0 :: rest, 2, i, o, n + 3 + 6 + 1 + 84 + 1 + k⟩ :=
    (brings_plus_head (UInt8.ofNat_add 60 k).symm).behind [f, g]
  have hclear := (@brings_clear (0 :: rest) i (o ++ [UInt8.ofNat (60 + k)])
    (n + 3 + 6 + 1 + 84 + 1 + k + 1) (UInt8.ofNat (60 + k))).behind [f, g]
  rw [UInt8.toNat_ofNat_of_lt' hk, show n + 3 + 6 + 1 + 84 + 1 + k + 1 + 1 + 2 * (60 + k) =
    n + (217 + 3 * k) by omega] at hclear
  exact hthere.append (hsix.append (Brings.loop hsixty (Brings.act (fun _ => rfl)
    (hadd.append (Brings.act (fun _ => rfl) hclear)))))

/-- The body of a loop that comes to the flag, takes it down, announces and goes back. -/
def verdict (approach : Block) (k back : Nat) : Block :=
  approach.append (act .decrement ((announce k).append (lefts back)))

theorem brings_verdict {approach : Block} {s : Store} {front : List UInt8} {g : UInt8} {k : Nat}
    (hk : 60 + k < 256) {back : Nat} (hback : back ≤ front.length + 2)
    (happroach : approach.Brings s ⟨front ++ 1 :: g :: 0 :: 0 :: rest, front.length, i, o, n⟩) :
    (verdict approach k back).Brings s
      ⟨front ++ 0 :: g :: 0 :: 0 :: rest, front.length + 2 - back, i, o ++ [UInt8.ofNat (60 + k)],
        n + (218 + 3 * k + back)⟩ := by
  have hdown : (act .decrement ((announce k).append (lefts back))).Brings
      ⟨front ++ 1 :: g :: 0 :: 0 :: rest, front.length, i, o, n⟩
      ⟨front ++ 0 :: g :: 0 :: 0 :: rest, front.length + 2 - back, i,
        o ++ [UInt8.ofNat (60 + k)], n + (218 + 3 * k + back)⟩ := by
    have hlefts := brings_lefts back (s := ⟨front ++ 0 :: g :: 0 :: 0 :: rest, front.length + 2, i,
      o ++ [UInt8.ofNat (60 + k)], n + 1 + (217 + 3 * k)⟩) hback
    rw [show n + 1 + (217 + 3 * k) + back = n + (218 + 3 * k + back) by omega] at hlefts
    refine Brings.act (fun _ => ?_) (((brings_announce hk 0 g).behind front).append hlefts)
    simp [perform, put, cell, tick, Store.behind]
  exact happroach.append hdown

/-- The tree that clears a cell and goes `d` cells to the right. -/
def approach (d : Nat) : Block := clear.append (rights d)

theorem brings_approach (v w : UInt8) (front mid : List UInt8) :
    (approach (mid.length + 1)).Brings ⟨front ++ v :: (mid ++ w :: rest), front.length, i, o, n⟩
      ⟨(front ++ 0 :: mid) ++ w :: rest, (front ++ 0 :: mid).length, i, o,
        n + (2 * v.toNat + mid.length + 2)⟩ := by
  have hrights := brings_rights (mid.length + 1) (s := ⟨front ++ 0 :: (mid ++ w :: rest),
    front.length, i, o, n + 1 + 2 * v.toNat⟩) (by simp)
  rw [show front ++ 0 :: (mid ++ w :: rest) = (front ++ 0 :: mid) ++ w :: rest by simp,
    show n + 1 + 2 * v.toNat + (mid.length + 1) = n + (2 * v.toNat + mid.length + 2) by omega,
    show front.length + (mid.length + 1) = (front ++ 0 :: mid).length by simp] at hrights
  refine Brings.append ?_ hrights
  have hclear := (@brings_clear (mid ++ w :: rest) i o n v).behind front
  simpa [Store.behind] using hclear

/-- The tree that looks at what is left over: of the first byte, then of the second one, and then at
the flag, which is up if nothing was left. -/
def decision : Block :=
  (rights 3).append (act .increment (act .left
    (loop (verdict (approach 1) 2 3) (act .left
      (loop (verdict (approach 2) 0 4)
        ((rights 2).append (loop (verdict done 1 2) done)))))))

section Decision

variable {d e : UInt8}

/-- The flag goes up, and the head goes to what is left of the first byte. -/
theorem brings_raise {c : Block} {u : Store}
    (hc : c.Brings ⟨0 :: d :: e :: 1 :: 0 :: 0 :: 0 :: rest, 2, i, o, n + 5⟩ u) :
    ((rights 3).append (act .increment (act .left c))).Brings
      ⟨0 :: d :: e :: 0 :: 0 :: 0 :: 0 :: rest, 0, i, o, n⟩ u := by
  have hthere : (rights 3).Brings ⟨0 :: d :: e :: 0 :: 0 :: 0 :: 0 :: rest, 0, i, o, n⟩
      ⟨0 :: d :: e :: 0 :: 0 :: 0 :: 0 :: rest, 3, i, o, n + 3⟩ := brings_rights 3 (by simp)
  exact hthere.append (Brings.act (fun _ => rfl) (Brings.act (fun _ => rfl) hc))

/-- From what is left of the second byte to the flag. -/
theorem brings_rights_flag (f : UInt8) :
    (rights 2).Brings ⟨0 :: 0 :: 0 :: f :: 0 :: 0 :: 0 :: rest, 1, i, o, n⟩
      ⟨0 :: 0 :: 0 :: f :: 0 :: 0 :: 0 :: rest, 3, i, o, n + 2⟩ :=
  brings_rights 2 (by simp)

theorem brings_decision_greater (he : e ≠ 0) :
    ∃ t, decision.Brings ⟨0 :: 0 :: e :: 0 :: 0 :: 0 :: 0 :: rest, 0, i, o, n⟩ t ∧
      t.output = o ++ [62] ∧ t.spent ≤ n + 1000 := by
  have hlt := e.toNat_lt
  have hbody : (verdict (approach 1) 2 3).Brings
      ⟨0 :: 0 :: e :: 1 :: 0 :: 0 :: 0 :: rest, 2, i, o, n + 6⟩
      ⟨0 :: 0 :: 0 :: 0 :: 0 :: 0 :: 0 :: rest, 2, i, o ++ [62], _⟩ :=
    brings_verdict (by omega) (by simp) (brings_approach e 1 [0, 0] [])
  refine ⟨_, brings_raise (Brings.loop (Repeats.once (Nat.succ_pos _) he hbody rfl)
    (Brings.act (fun _ => rfl) (Brings.loop (Repeats.stop rfl)
      ((brings_rights_flag 0).append (Brings.loop (Repeats.stop rfl) (Brings.refl _)))))), rfl, ?_⟩
  simp only [tick, List.length_nil]
  omega

theorem brings_decision_less (hd : d ≠ 0) :
    ∃ t, decision.Brings ⟨0 :: d :: 0 :: 0 :: 0 :: 0 :: 0 :: rest, 0, i, o, n⟩ t ∧
      t.output = o ++ [60] ∧ t.spent ≤ n + 1000 := by
  have hlt := d.toNat_lt
  have hbody : (verdict (approach 2) 0 4).Brings
      ⟨0 :: d :: 0 :: 1 :: 0 :: 0 :: 0 :: rest, 1, i, o, n + 8⟩
      ⟨0 :: 0 :: 0 :: 0 :: 0 :: 0 :: 0 :: rest, 1, i, o ++ [60], _⟩ :=
    brings_verdict (by omega) (by simp) (brings_approach d 1 [0] [0])
  refine ⟨_, brings_raise (Brings.loop (Repeats.stop rfl) (Brings.act (fun _ => rfl)
    (Brings.loop (Repeats.once (Nat.succ_pos _) hd hbody rfl)
      ((brings_rights_flag 0).append (Brings.loop (Repeats.stop rfl) (Brings.refl _)))))), rfl, ?_⟩
  simp only [tick, List.length_cons, List.length_nil]
  omega

theorem brings_decision_equal :
    ∃ t, decision.Brings ⟨0 :: 0 :: 0 :: 0 :: 0 :: 0 :: 0 :: rest, 0, i, o, n⟩ t ∧
      t.output = o ++ [61] ∧ t.spent ≤ n + 1000 := by
  have hbody : (verdict done 1 2).Brings
      ⟨0 :: 0 :: 0 :: 1 :: 0 :: 0 :: 0 :: rest, 3, i, o, n + 11⟩
      ⟨0 :: 0 :: 0 :: 0 :: 0 :: 0 :: 0 :: rest, 3, i, o ++ [61], _⟩ :=
    @brings_verdict _ _ _ _ done _ [0, 0, 0] _ _ (by omega) _ (by simp) (Brings.refl _)
  have hup : (1 : UInt8) ≠ 0 := by decide
  refine ⟨_, brings_raise (Brings.loop (Repeats.stop rfl) (Brings.act (fun _ => rfl)
    (Brings.loop (Repeats.stop rfl) ((brings_rights_flag 1).append
      (Brings.loop (Repeats.once (Nat.succ_pos _) hup hbody rfl) (Brings.refl _)))))),
    rfl, ?_⟩
  simp only [tick]
  omega

end Decision

/-! ## The program -/

/-- The tree of the program. -/
def comparison : Block :=
  act .input (act .right (act .input (act .left (loop pass decision))))

/-- The sign of a comparison, as a byte. -/
def sign (x y : UInt8) : UInt8 := if y < x then 62 else if x = y then 61 else 60

/-- What is left over decides. -/
theorem brings_decision (x y : UInt8) :
    ∃ t, decision.Brings ⟨0 :: UInt8.ofNat (y.toNat - x.toNat) :: UInt8.ofNat (x.toNat - y.toNat) ::
        0 :: 0 :: 0 :: 0 :: rest, 0, i, o, n⟩ t ∧
      t.output = o ++ [sign x y] ∧ t.spent ≤ n + 1000 := by
  have hx := x.toNat_lt
  have hy := y.toNat_lt
  unfold sign
  split
  · next hgreater =>
    have hlt := UInt8.lt_iff_toNat_lt.mp hgreater
    rw [Nat.sub_eq_zero_of_le (Nat.le_of_lt hlt)]
    obtain ⟨k, hk⟩ := Nat.exists_eq_add_of_lt hlt
    refine brings_decision_greater ?_
    rw [show x.toNat - y.toNat = k + 1 by omega]
    exact ofNat_succ_ne_zero (by omega)
  · next hnot =>
    have hle : x.toNat ≤ y.toNat := UInt8.le_iff_toNat_le.mp (UInt8.not_lt.mp hnot)
    rw [Nat.sub_eq_zero_of_le hle]
    split
    · next heq =>
      rw [heq, Nat.sub_self]
      exact brings_decision_equal
    · next hne =>
      have hlt : x.toNat < y.toNat := Nat.lt_of_le_of_ne hle fun h => hne (UInt8.toNat_inj.mp h)
      obtain ⟨k, hk⟩ := Nat.exists_eq_add_of_lt hlt
      refine brings_decision_less ?_
      rw [show y.toNat - x.toNat = k + 1 by omega]
      exact ofNat_succ_ne_zero (by omega)

/-- **The program prints the sign of the comparison**, at a price that is below a million for all
bytes. -/
theorem brings_comparison (x y : UInt8) (more : List UInt8) {size : Nat} (hsize : 7 ≤ size) :
    ∃ t, comparison.Brings (.fresh size (x :: y :: more)) t ∧ t.output = [sign x y] ∧
      t.spent ≤ 1000000 := by
  obtain ⟨m, rfl⟩ := Nat.exists_eq_add_of_le' hsize
  have hloop := @repeats_pass (0 :: 0 :: List.replicate m 0) more [] 5 x.toNat y.toNat x.toNat_lt
    y.toNat_lt (by omega) 0
  rw [UInt8.ofNat_toNat, UInt8.ofNat_toNat, UInt8.zero_add] at hloop
  obtain ⟨t, hdecision, houtput, hspent⟩ := @brings_decision (List.replicate m 0) more []
    (5 + passesPrice x.toNat y.toNat) x y
  refine ⟨t, ?_, houtput, ?_⟩
  · exact Brings.act (fun _ => rfl) (Brings.right (by simp [Store.fresh, put, tick])
      (Brings.act (fun _ => rfl) (Brings.act (fun _ => rfl) (Brings.loop hloop hdecision))))
  · have hprice := passesPrice_le x.toNat y.toNat
    have hx := x.toNat_lt
    have hsquare : y.toNat * y.toNat ≤ 255 * 255 :=
      Nat.mul_le_mul (Nat.le_of_lt_succ y.toNat_lt) (Nat.le_of_lt_succ y.toNat_lt)
    omega

end Block

/-! ## The exercise -/

variable {e : Exercise}

/-- The tree is the one of the solution that the exercise brings. -/
theorem Catalog.code_comparison (he : exercise? .advanced 3 = some e) :
    Block.comparison.code = clean e.solution := by
  cases he
  -- the solution is written in three pieces, and each of them is spelled by a piece of the tree
  show Block.comparison.code = clean (_ ++ _ ++ _)
  rw [Interpreter.clean_append, Interpreter.clean_append,
    ← List.take_append_drop 88 Block.comparison.code,
    ← List.take_append_drop 88 (Block.comparison.code.drop 88), ← List.append_assoc]
  exact (congrArg₂ _ (congrArg₂ _ (clean_spell _) (clean_spell _)) (clean_spell _)).symm

theorem Text.showBytes_sign (x y : UInt8) :
    showBytes #[Block.sign x y] = if y < x then ">" else if x = y then "=" else "<" := by
  unfold Block.sign
  split
  · rfl
  · split <;> rfl

namespace Interpreter

/-- **The solution of the comparison exercise is right for all bytes.**  With two bytes or more as
input, seven cells and a ceiling of a million it succeeds, and it prints `>`, `=` or `<` as the first
byte is above, at or below the second one, and nothing else. -/
theorem execute_comparison (it : Interpreter) {e : Exercise}
    (he : Catalog.exercise? .advanced 3 = some e) {x y : UInt8} {more : List UInt8}
    (hinput : it.config.input.toList = x :: y :: more) (hcells : 7 ≤ it.config.memorySize)
    (hceiling : 1000000 ≤ it.config.maxIterations) :
    e.title = "Number Comparison" ∧
      ∃ done, (it.execute e.solution).1 = .ok done ∧
        Text.showBytes done.output = if y < x then ">" else if x = y then "=" else "<" := by
  obtain ⟨t, hbrings, houtput, hspent⟩ := Block.brings_comparison x y more hcells
  rw [← hinput] at hbrings
  obtain ⟨done, hdone, hwritten, _⟩ := it.execute_of_brings (Catalog.code_comparison he) hbrings
    (Nat.le_trans hspent hceiling)
  refine ⟨?_, done, hdone, ?_⟩
  · cases he
    rfl
  · rw [← Text.showBytes_sign, show done.output = #[Block.sign x y] from
      Array.toList_inj.mp (hwritten.trans houtput)]

/-- Two against five, with more input behind, on seven cells. -/
theorem execute_comparison_less :
    ∃ e, Catalog.exercise? .advanced 3 = some e ∧ e.title = "Number Comparison" ∧
      ∃ done, ((fresh { memorySize := 7, input := #[2, 5, 9] }).execute e.solution).1 = .ok done ∧
        Text.showBytes done.output = "<" := by
  obtain ⟨e, he⟩ : ∃ e, Catalog.exercise? .advanced 3 = some e := ⟨_, rfl⟩
  exact ⟨e, he, execute_comparison (fresh { memorySize := 7, input := #[2, 5, 9] }) he rfl
    (by decide) (by decide)⟩

end Interpreter

end TapeTutor
