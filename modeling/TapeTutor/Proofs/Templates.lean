import TapeTutor.Catalog.Generated
import TapeTutor.Proofs.Generation
import TapeTutor.Proofs.Judging
import TapeTutor.Proofs.Price
import TapeTutor.Proofs.Sequence

/-!
# Which exercise templates have a solution

An exercise that is made from a template brings a solution with it.  Whether that solution is
accepted depends on the tape and on the ceiling, and for each template there is an exact condition.

Moving and multiplying are one program.  It counts up to `v`, and then a loop takes one from the
first cell and adds `b` to the cell at a distance `d`, until nothing is left (`Block.carrier`).  Moving
has `b = 1` and multiplying has `d = 1`.

* The loop has a contract with an exact price, by induction on the cell that counts it down
  (`repeats_carry`), and so has the program (`brings_carrier`).
* The contract needs a tape of `d + 1` cells.  Nothing has to be said about shorter tapes, for the
  cells that are asked for would not be there (`grade_leaving_iff`).
* At no distance at all the loop adds to the cell that counts it down, and what `moveValue` does
  there never ends (`run_carrier_zero_ne_ok`).
-/

namespace TapeTutor

open Text (repeated)
open Interpreter (clean_append)

/-! ## Texts -/

theorem clean_repeated (n : Nat) (s : String) :
    clean (repeated n s) = (List.replicate n (clean s)).flatten := by
  induction n with
  | zero => rfl
  | succ n ih => rw [Text.repeated_succ, clean_append, ih, List.replicate_succ, List.flatten_cons]

/-- An instruction that is repeated in a text. -/
theorem clean_repeated_of_clean {s : String} {i : Instruction} (hs : clean s = [i]) (n : Nat) :
    clean (repeated n s) = List.replicate n i := by
  rw [clean_repeated, hs, List.flatten_replicate_singleton]

/-! ## Moving -/

namespace Block

open Store

variable {rest i o : List UInt8} {n : Nat}

/-- The tree that moves `d` cells to the right. -/
def rights (d : Nat) : Block := ofActions (List.replicate d .right)

/-- The tree that moves `d` cells to the left. -/
def lefts (d : Nat) : Block := ofActions (List.replicate d .left)

theorem brings_rights (d : Nat) {s : Store} (h : s.head + d < s.tape.length) :
    (rights d).Brings s { s with head := s.head + d, spent := s.spent + d } := by
  induction d generalizing s with
  | zero => exact Brings.refl s
  | succ d ih =>
    refine Brings.right (by omega) ?_
    have hnext := ih (s := { s.tick with head := s.head + 1 })
      (by simp only [tick]; omega)
    simp only [tick] at hnext
    rwa [Nat.add_assoc, Nat.add_assoc, Nat.add_comm 1] at hnext

theorem brings_lefts (d : Nat) {s : Store} (h : d ≤ s.head) :
    (lefts d).Brings s { s with head := s.head - d, spent := s.spent + d } := by
  induction d generalizing s with
  | zero => exact Brings.refl s
  | succ d ih =>
    have hhead : s.head ≠ 0 := by omega
    refine Brings.act (t := { s.tick with head := s.head - 1 }) (fun position => if_neg hhead) ?_
    have hnext := ih (s := { s.tick with head := s.head - 1 }) (by simp only; omega)
    simp only [tick] at hnext
    rwa [Nat.sub_sub, Nat.add_assoc, Nat.add_comm 1] at hnext

/-! ## Carrying -/

/-- The body of a loop that takes one from a cell and adds `b` to the cell `d` to the right. -/
def carry (d b : Nat) : Block :=
  act .decrement ((rights d).append ((plus b).append (lefts d)))

/-- The tree that counts up to `v` and carries it off. -/
def carrier (v d b : Nat) : Block := (plus v).append (loop (carry d b) done)

theorem code_carrier (v d b : Nat) :
    (carrier v d b).code =
      List.replicate v .increment ++ .loopOpen :: .decrement :: (List.replicate d .right ++
        (List.replicate b .increment ++ (List.replicate d .left ++ [.loopClose]))) := by
  simp [carrier, carry, code, rights, lefts, Generator.plus, Action.instruction]

/-- One round: from a cell to the one behind `mid` and back. -/
theorem brings_carry (b : Nat) (x y : UInt8) (mid : List UInt8) :
    (carry (mid.length + 1) b).Brings ⟨x :: (mid ++ y :: rest), 0, i, o, n⟩
      ⟨(x - 1) :: (mid ++ (y + UInt8.ofNat b) :: rest), 0, i, o,
        n + (2 * (mid.length + 1) + b + 1)⟩ := by
  have hthere : (rights (mid.length + 1)).Brings ⟨(x - 1) :: (mid ++ y :: rest), 0, i, o, n + 1⟩
      ⟨(x - 1) :: (mid ++ y :: rest), mid.length + 1, i, o, n + 1 + (mid.length + 1)⟩ := by
    have h := brings_rights (mid.length + 1) (s := ⟨(x - 1) :: (mid ++ y :: rest), 0, i, o, n + 1⟩)
      (by simp)
    rwa [Nat.zero_add] at h
  have hadd : (plus b).Brings
      ⟨(x - 1) :: (mid ++ y :: rest), mid.length + 1, i, o, n + 1 + (mid.length + 1)⟩
      ⟨(x - 1) :: (mid ++ (y + UInt8.ofNat b) :: rest), mid.length + 1, i, o,
        n + 1 + (mid.length + 1) + b⟩ := by
    have h := brings_plus b
      (s := ⟨(x - 1) :: (mid ++ y :: rest), mid.length + 1, i, o, n + 1 + (mid.length + 1)⟩)
      (by simp)
    simpa [put, cell] using h
  have hback : (lefts (mid.length + 1)).Brings
      ⟨(x - 1) :: (mid ++ (y + UInt8.ofNat b) :: rest), mid.length + 1, i, o,
        n + 1 + (mid.length + 1) + b⟩
      ⟨(x - 1) :: (mid ++ (y + UInt8.ofNat b) :: rest), 0, i, o,
        n + (2 * (mid.length + 1) + b + 1)⟩ := by
    have h := brings_lefts (mid.length + 1)
      (s := ⟨(x - 1) :: (mid ++ (y + UInt8.ofNat b) :: rest), mid.length + 1, i, o,
        n + 1 + (mid.length + 1) + b⟩) (Nat.le_refl _)
    simp only [Nat.sub_self] at h
    rwa [show n + 1 + (mid.length + 1) + b + (mid.length + 1) =
      n + (2 * (mid.length + 1) + b + 1) by omega] at h
  exact Brings.act (fun _ => rfl) (hthere.append (hadd.append hback))

/-- The loop, by induction on the cell that it counts down. -/
theorem repeats_carry (b k : Nat) (hk : k < 256) (hn : 0 < n) (y : UInt8) (mid : List UInt8) :
    (carry (mid.length + 1) b).Repeats ⟨UInt8.ofNat k :: (mid ++ y :: rest), 0, i, o, n⟩
      ⟨0 :: (mid ++ (y + UInt8.ofNat (k * b)) :: rest), 0, i, o,
        n + k * (2 * (mid.length + 1) + b + 2)⟩ := by
  induction k generalizing n y with
  | zero =>
    rw [Nat.zero_mul, Nat.zero_mul, show y + UInt8.ofNat 0 = y from UInt8.add_zero y]
    exact Repeats.stop rfl
  | succ k ih =>
    have hround := @brings_carry rest i o n b (UInt8.ofNat (k + 1)) y mid
    rw [ofNat_succ_sub_one] at hround
    refine Repeats.round hn (ofNat_succ_ne_zero hk) hround ?_
    have h := ih (n := n + (2 * (mid.length + 1) + b + 1) + 1) (by omega) (by omega)
      (y + UInt8.ofNat b)
    rw [UInt8.add_assoc, ← UInt8.ofNat_add, show b + k * b = (k + 1) * b by
      rw [Nat.succ_mul, Nat.add_comm],
      show n + (2 * (mid.length + 1) + b + 1) + 1 + k * (2 * (mid.length + 1) + b + 2) =
        n + (k + 1) * (2 * (mid.length + 1) + b + 2) by rw [Nat.succ_mul k]; omega] at h
    exact h

/-- Counting up on a fresh tape. -/
theorem brings_plus_fresh (v m : Nat) :
    (plus v).Brings (.fresh (m + 1) i) ⟨UInt8.ofNat v :: List.replicate m 0, 0, i, [], v⟩ := by
  have h : (plus v).Brings ⟨0 :: List.replicate m 0, 0, i, [], 0⟩
      ⟨UInt8.ofNat v :: List.replicate m 0, 0, i, [], 0 + v⟩ :=
    brings_plus_head (UInt8.zero_add _)
  rwa [Nat.zero_add] at h

/-- Counting up and carrying off, on a fresh tape with `m` cells behind the target. -/
theorem brings_carrier (b d m : Nat) {v : Nat} (hv : v < 256) :
    (carrier v (d + 1) b).Brings (.fresh (m + (d + 2)) i)
      ⟨0 :: (List.replicate d 0 ++ UInt8.ofNat (v * b) :: List.replicate m 0), 0, i, [],
        v + 1 + v * (2 * (d + 1) + b + 2)⟩ := by
  have hcount := brings_plus_fresh (i := i) v (d + (m + 1))
  rw [← List.replicate_append_replicate, List.replicate_succ] at hcount
  have hloop := @repeats_carry (List.replicate m 0) i [] (v + 1) b v hv (Nat.succ_pos v) 0
    (List.replicate d 0)
  rw [List.length_replicate, UInt8.zero_add] at hloop
  rw [show m + (d + 2) = d + (m + 1) + 1 by omega]
  exact hcount.append (Brings.loop hloop (Brings.refl _))

/-- Nothing to carry: the loop is over at once, at any distance and on any tape. -/
theorem brings_carrier_zero (d b size : Nat) :
    (carrier 0 d b).Brings (.fresh size i) (Store.fresh size i).tick := by
  refine Brings.loop (Repeats.stop ?_) (Brings.refl _)
  show (List.replicate size (0 : UInt8)).getD 0 0 = 0
  cases size <;> rfl

/-- **Carrying to where it came from never ends.**  A round takes one from the cell and puts it
back. -/
theorem run_carrier_zero_ne_ok {limit v m : Nat} (hv : UInt8.ofNat v ≠ 0) (hlimit : v ≤ limit)
    {u : Store} : (carrier v 0 1).run limit 0 (.fresh (m + 1) i) ≠ .ok u := by
  intro h
  rw [carrier, run_append, (brings_plus_fresh v m).run_eq limit 0 hlimit] at h
  obtain ⟨s, hs, hloop⟩ := bind_eq_ok h
  cases hs
  obtain ⟨t, ht, hrest⟩ := bind_eq_ok hloop
  obtain ⟨rfl, _⟩ := eq_tick_of_charge ht
  obtain ⟨w, hw, _⟩ := bind_eq_ok hrest
  -- The invariant: the head is on the first cell, which holds what was counted.
  refine @repeatWhile_ne_ok _ _
    (fun s => s.head = 0 ∧ s.tape = UInt8.ofNat v :: List.replicate m 0)
    ?_ (fun _ hs => hs) ?_ _ _ ⟨rfl, rfl⟩ hw
  · rintro s ⟨hhead, htape⟩
    simpa [cell, hhead, htape] using hv
  · rintro s t ⟨hhead, htape⟩ hbody
    obtain ⟨s', hdecrement, hbody⟩ := bind_eq_ok hbody
    obtain ⟨s'', hincrement, hdone⟩ := bind_eq_ok hbody
    cases perform_of_act hdecrement
    cases perform_of_act hincrement
    cases hdone
    simp [put, cell, tick, hhead, htape]

end Block

/-! ## Grading by cells -/

open Interpreter

variable {config : Config} {code : String} {cells : List UInt8} {b : Block} {t : Store}

/-- How a program with a contract is graded, under a ceiling that covers its price. -/
theorem grade_leaving_of_brings (hvalid : config.Valid) (hcode : b.code = clean code)
    (hbrings : b.Brings (.fresh config.memorySize []) t) (hle : t.spent ≤ config.maxIterations) :
    grade code [.leaving cells] config =
      if t.tape.take cells.length = cells then none
      else some (.memory cells.toArray (t.tape.take cells.length).toArray) := by
  obtain ⟨done, hdone, _, _, htape, _⟩ :=
    (fresh { config with input := #[] }).execute_of_brings hcode hbrings hle
  have hseen : ((TestCase.leaving cells).trial code config).2.snapshot 0 cells.toArray.size =
      (t.tape.take cells.length).toArray := by
    apply Array.toList_inj.mp
    rw [← htape]
    exact toList_snapshot_execute _ code cells.length
  rw [grade_singleton hvalid]
  split
  · next hcells =>
    refine TestCase.fault?_eq_none_iff.mpr ⟨done, hdone, nofun, ?_⟩
    rintro _ ⟨⟩
    rw [hseen, hcells]
  · next hcells =>
    rw [← hseen]
    refine TestCase.fault?_eq_some_iff.mpr (.memory hdone nofun rfl ?_)
    rw [hseen]
    exact fun h => hcells (congrArg Array.toList h)

/-- **A program that leaves the cells that are asked for is accepted if and only if there are that
many cells and the ceiling covers its price.**  It needs a contract only on tapes that have these
cells, for whatever it does on a shorter one, the cells are not there. -/
theorem grade_leaving_iff (hvalid : config.Valid) (hcode : b.code = clean code) {price : Nat}
    (hbrings : cells.length ≤ config.memorySize →
      ∃ t, b.Brings (.fresh config.memorySize []) t ∧ t.spent = price ∧
        t.tape.take cells.length = cells) :
    grade code [.leaving cells] config = none ↔
      cells.length ≤ config.memorySize ∧ price ≤ config.maxIterations := by
  constructor
  · intro h
    rw [grade_singleton hvalid, TestCase.fault?_eq_none_iff] at h
    obtain ⟨done, hdone, _, hcells⟩ := h
    have hlength : min cells.length config.memorySize = cells.length :=
      (size_snapshot_execute (fresh { config with input := #[] }) code cells.length).symm.trans
        (congrArg Array.size (hcells cells.toArray rfl))
    have hfits : cells.length ≤ config.memorySize := by omega
    obtain ⟨t, ht, rfl, _⟩ := hbrings hfits
    exact ⟨hfits, (execute_ok_iff_of_brings _ hcode ht).mp ⟨done, hdone⟩⟩
  · rintro ⟨hfits, hle⟩
    obtain ⟨t, ht, rfl, hcells⟩ := hbrings hfits
    rw [grade_leaving_of_brings hvalid hcode ht hle, if_pos hcells]

/-- A program that comes to no end, however high the ceiling, is not accepted under any. -/
theorem grade_leaving_ne_none (hvalid : config.Valid) (hcode : b.code = clean code) (least : Nat)
    (hrun : ∀ limit u, least ≤ limit → b.run limit 0 (.fresh config.memorySize []) ≠ .ok u) :
    grade code [.leaving cells] config ≠ none := by
  intro h
  rw [grade_singleton hvalid, TestCase.fault?_eq_none_iff] at h
  obtain ⟨done, hdone, _⟩ := h
  obtain ⟨u, hu, _⟩ := exists_run_of_execute_ok _ hcode hdone
    (Nat.le_max_left config.maxIterations least)
  exact hrun _ u (Nat.le_max_right _ _) hu

/-! ## The templates -/

namespace Exercise

/-- A solution is accepted: with the setup in front it passes the tests. -/
def Accepts (e : Exercise) (config : Config) (solution : String) : Prop :=
  grade (e.full solution) e.tests config = none

instance (e : Exercise) (config : Config) (solution : String) :
    Decidable (e.Accepts config solution) :=
  inferInstanceAs (Decidable (_ = none))

open Block (plus carrier code_plus code_carrier brings_plus_fresh brings_carrier
  brings_carrier_zero run_carrier_zero_ne_ok)

theorem code_setValue (v : UInt8) :
    (plus v.toNat).code = clean ((setValue v).full (setValue v).solution) := by
  rw [code_plus, full, clean_append]
  exact (clean_repeated_of_clean rfl v.toNat).symm

theorem code_moveValue (v : UInt8) (d : Nat) :
    (carrier v.toNat d 1).code = clean ((moveValue v d).full (moveValue v d).solution) := by
  have hopen : clean "[-" = [.loopOpen, .decrement] := rfl
  have hplus : clean "+" = [.increment] := rfl
  have hclose : clean "]" = [.loopClose] := rfl
  simp only [full, moveValue, clean_append, clean_repeated_of_clean hplus, hopen, hplus, hclose,
    clean_repeated_of_clean (show clean ">" = [.right] from rfl),
    clean_repeated_of_clean (show clean "<" = [.left] from rfl), code_carrier]
  simp

theorem code_multiply (x y : UInt8) :
    (carrier x.toNat 1 y.toNat).code = clean ((multiply x y).full (multiply x y).solution) := by
  have hopen : clean "[->" = [.loopOpen, .decrement, .right] := rfl
  have hclose : clean "<]" = [.left, .loopClose] := rfl
  simp only [full, Exercise.multiply, clean_append, hopen, hclose,
    clean_repeated_of_clean (show clean "+" = [.increment] from rfl), code_carrier]
  simp [clean]

theorem accepts_setValue_iff (hvalid : config.Valid) (v : UInt8) :
    (setValue v).Accepts config (setValue v).solution ↔ v.toNat ≤ config.maxIterations := by
  refine (grade_leaving_iff hvalid (code_setValue v) fun _ => ?_).trans
    (and_iff_right hvalid.1)
  obtain ⟨m, hm⟩ := Nat.exists_eq_add_of_le' hvalid.1
  rw [hm]
  exact ⟨_, brings_plus_fresh v.toNat m, rfl, by simp⟩

theorem accepts_moveValue_iff (hvalid : config.Valid) {v : UInt8} {d : Nat} (h : 1 ≤ d ∨ v = 0) :
    (moveValue v d).Accepts config (moveValue v d).solution ↔
      d + 1 ≤ config.memorySize ∧
        v.toNat + 1 + v.toNat * (2 * d + 3) ≤ config.maxIterations := by
  have hlength : (List.replicate d 0 ++ [v]).length = d + 1 := by simp
  rw [← hlength]
  refine grade_leaving_iff hvalid (code_moveValue v d) fun hfits => ?_
  rw [hlength] at hfits ⊢
  -- With nothing to move, the cells that are asked for are those of a fresh tape.
  obtain rfl | hv := eq_or_ne v 0
  · refine ⟨_, brings_carrier_zero d 1 config.memorySize, ?_, ?_⟩
    · simp [Store.fresh, Store.tick]
    · show (List.replicate config.memorySize 0).take (d + 1) = _
      rw [List.take_replicate, Nat.min_eq_left hfits, List.replicate_succ']
  · obtain ⟨d, rfl⟩ := Nat.exists_eq_add_of_le' (h.resolve_right hv)
    obtain ⟨m, hm⟩ := Nat.exists_eq_add_of_le' hfits
    rw [hm]
    refine ⟨_, brings_carrier 1 d m v.toNat_lt, rfl, ?_⟩
    simp [List.replicate_succ, List.take_append]

/-- A value that is moved nowhere is moved for ever. -/
theorem not_accepts_moveValue_zero (hvalid : config.Valid) {v : UInt8} (hv : v ≠ 0) :
    ¬(moveValue v 0).Accepts config (moveValue v 0).solution := by
  refine grade_leaving_ne_none hvalid (code_moveValue v 0) v.toNat fun limit u hle => ?_
  obtain ⟨m, hm⟩ := Nat.exists_eq_add_of_le' hvalid.1
  rw [hm]
  exact run_carrier_zero_ne_ok (by rwa [UInt8.ofNat_toNat]) hle

theorem accepts_multiply_iff (hvalid : config.Valid) (x y : UInt8) :
    (multiply x y).Accepts config (multiply x y).solution ↔
      2 ≤ config.memorySize ∧
        x.toNat + 1 + x.toNat * (y.toNat + 4) ≤ config.maxIterations := by
  refine grade_leaving_iff hvalid (code_multiply x y) fun hfits => ?_
  obtain ⟨m, hm⟩ := Nat.exists_eq_add_of_le' hfits
  rw [hm]
  refine ⟨_, brings_carrier y.toNat 0 m x.toNat_lt, ?_, ?_⟩
  · show x.toNat + 1 + x.toNat * (2 * (0 + 1) + y.toNat + 2) = _
    rw [show 2 * (0 + 1) + y.toNat + 2 = y.toNat + 4 by omega]
  · simp

/-- **When the solution that comes with a template is accepted.**  To set a value takes as many
instructions as the value.  To move one takes the cells up to the target, and a price of `2 * d + 3`
for each unit; to move it nowhere is only possible if there is nothing to move.  To multiply takes
two cells, and a price of `y + 4` for each unit of the first factor; the product may wrap. -/
theorem solution_accepted_iff (config : Config) (hvalid : config.Valid) :
    (∀ v : UInt8,
      (setValue v).Accepts config (setValue v).solution ↔ v.toNat ≤ config.maxIterations) ∧
    (∀ (v : UInt8) (d : Nat), 1 ≤ d ∨ v = 0 →
      ((moveValue v d).Accepts config (moveValue v d).solution ↔
        d + 1 ≤ config.memorySize ∧
          v.toNat + 1 + v.toNat * (2 * d + 3) ≤ config.maxIterations)) ∧
    (∀ v : UInt8, v ≠ 0 → ¬(moveValue v 0).Accepts config (moveValue v 0).solution) ∧
    ∀ x y : UInt8,
      (multiply x y).Accepts config (multiply x y).solution ↔
        2 ≤ config.memorySize ∧
          x.toNat + 1 + x.toNat * (y.toNat + 4) ≤ config.maxIterations :=
  ⟨accepts_setValue_iff hvalid, fun _ _ => accepts_moveValue_iff hvalid,
    fun _ => not_accepts_moveValue_zero hvalid, accepts_multiply_iff hvalid⟩

/-- Three cells and 17 instructions are just enough to move a two by two cells, and a factor of
three is already too expensive. -/
theorem solution_accepted_iff_narrow :
    (moveValue 2 2).Accepts { memorySize := 3, maxIterations := 17 } (moveValue 2 2).solution ∧
      ¬(moveValue 2 3).Accepts { memorySize := 3, maxIterations := 17 }
        (moveValue 2 3).solution ∧
      ¬(moveValue 2 0).Accepts { memorySize := 3, maxIterations := 17 }
        (moveValue 2 0).solution ∧
      (multiply 2 3).Accepts { memorySize := 3, maxIterations := 17 } (multiply 2 3).solution ∧
      ¬(multiply 3 2).Accepts { memorySize := 3, maxIterations := 17 }
        (multiply 3 2).solution := by
  obtain ⟨_, hmove, hnowhere, hmultiply⟩ :=
    solution_accepted_iff { memorySize := 3, maxIterations := 17 } (by decide)
  refine ⟨(hmove 2 2 (by decide)).mpr (by decide), ?_, hnowhere 2 (by decide),
    (hmultiply 2 3).mpr (by decide), ?_⟩
  · rw [hmove 2 3 (by decide)]
    decide
  · rw [hmultiply 3 2]
    decide

end Exercise

end TapeTutor
