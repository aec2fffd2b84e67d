import TapeTutor.Proofs.Structured

/-!
# Contracts of blocks

A contract says what a block does to a store when nothing goes wrong, and at what price:
`b.Brings s t` holds if `b`, wherever it stands and under every ceiling that covers what `t` has
paid for, runs from `s` to `t`.  Stores count what has been paid for, so a contract is exact about
the number of instructions.

Contracts compose along the structure of a block.  An action has the contract of its effect
(`Brings.act`), a sequence that of its parts (`Brings.append`), and a loop that of its rounds:
`body.Repeats s t` follows a loop whose opening bracket has been paid for, round by round
(`Repeats.stop`, `Repeats.round`), and `Brings.loop` puts the opening bracket in front.

A contract says where on the tape a block works, but it does not depend on it.  A block that never
runs off the left end of a tape does not see that end, so it does the same with more cells in front
of the tape, and leaves them as they are (`Brings.behind`, `Repeats.behind`).
-/

namespace TapeTutor

namespace Block

open Store

/-! ## Blocks in sequence -/

theorem bind_assoc (v : Store.Result) (f g : Store → Store.Result) :
    (v.bind f).bind g = v.bind fun t => (f t).bind g := by
  cases v <;> rfl

/-- Running one block after another is running the first and then, from where it ends, the
second. -/
theorem run_append (limit : Nat) (b c : Block) (position : Nat) (s : Store) :
    (b.append c).run limit position s =
      (b.run limit position s).bind (c.run limit (position + b.size)) := by
  induction b generalizing position s with
  | done => rfl
  | act a rest ih =>
    rw [append, run, run, bind_assoc, size_act]
    congr 1
    funext t
    rw [ih, Nat.add_assoc, Nat.add_comm 1]
  | loop body rest _ ih =>
    rw [append, run, run, bind_assoc, size_loop]
    congr 1
    funext t
    rw [bind_assoc]
    congr 1
    funext u
    rw [ih, show position + 1 + body.size + 1 + rest.size =
      position + (body.size + rest.size + 2) by omega]

/-- The actions of a list, one after another. -/
def ofActions : List Action → Block
  | [] => done
  | a :: as => act a (ofActions as)

@[simp] theorem code_ofActions (as : List Action) :
    (ofActions as).code = as.map Action.instruction := by
  induction as with
  | nil => rfl
  | cons a as ih => rw [ofActions, code, ih, List.map_cons]

/-! ## Contracts -/

/-- Wherever it stands, the block runs from one store to the other under every ceiling that
covers what the second has paid for. -/
structure Brings (b : Block) (s t : Store) : Prop where
  spent_le : s.spent ≤ t.spent
  run_eq : ∀ limit position, t.spent ≤ limit → b.run limit position s = .ok t

/-- A loop whose opening bracket has been paid for runs from one store to the other under every
ceiling that covers what the second has paid for. -/
structure Repeats (body : Block) (s t : Store) : Prop where
  spent_le : s.spent ≤ t.spent
  run_eq : ∀ limit position, t.spent ≤ limit →
    s.repeatWhile limit (body.run limit position) = .ok t

variable {b c body : Block} {s t u : Store}

theorem Brings.refl (s : Store) : done.Brings s s :=
  ⟨Nat.le_refl _, fun _ _ _ => rfl⟩

theorem Brings.append (hb : b.Brings s t) (hc : c.Brings t u) : (b.append c).Brings s u := by
  refine ⟨Nat.le_trans hb.spent_le hc.spent_le, fun limit position hle => ?_⟩
  rw [run_append, hb.run_eq limit position (Nat.le_trans hc.spent_le hle)]
  exact hc.run_eq limit _ hle

/-- An action that succeeds wherever it stands, and then the rest. -/
theorem Brings.act {a : Action} (ha : ∀ position, s.tick.perform position a = .ok t)
    (hc : c.Brings t u) : (Block.act a c).Brings s u := by
  have hspent : t.spent = s.spent + 1 := spent_perform (ha 0)
  have hle := hc.spent_le
  refine ⟨by omega, fun limit position hlimit => ?_⟩
  rw [run, Store.act, charge_of_lt (by omega)]
  simp only [Except.bind]
  rw [ha position]
  exact hc.run_eq limit _ hlimit

/-- A move to the right that stays on the tape, and then the rest. -/
theorem Brings.right (hs : s.head + 1 < s.tape.length)
    (hc : c.Brings { s.tick with head := s.head + 1 } u) : (Block.act .right c).Brings s u := by
  refine Brings.act (fun position => ?_) hc
  show (if s.head + 1 < s.tape.length then _ else _) = _
  rw [if_pos hs]
  rfl

/-- A loop, and then the rest. -/
theorem Brings.loop (hbody : body.Repeats s.tick t) (hc : c.Brings t u) :
    (Block.loop body c).Brings s u := by
  have hle := hbody.spent_le
  have hle' := hc.spent_le
  rw [spent_tick] at hle
  refine ⟨by omega, fun limit position hlimit => ?_⟩
  rw [run, charge_of_lt (by omega)]
  simp only [Except.bind]
  rw [hbody.run_eq limit _ (by omega)]
  exact hc.run_eq limit _ hlimit

/-- A loop on a zero cell is over. -/
theorem Repeats.stop (hcell : s.cell = 0) : body.Repeats s s :=
  ⟨Nat.le_refl _, fun _ _ _ => if_pos hcell⟩

/-- A loop on another cell runs its body, pays for the closing bracket and goes on. -/
theorem Repeats.round (hpaid : 0 < s.spent) (hcell : s.cell ≠ 0) (hbody : body.Brings s t)
    (hrest : body.Repeats t.tick u) : body.Repeats s u := by
  have hle := hbody.spent_le
  have hle' := hrest.spent_le
  rw [spent_tick] at hle'
  refine ⟨by omega, fun limit position hlimit => ?_⟩
  rw [repeatWhile_eq (fun _ _ => spent_le_run) hpaid (by omega), if_neg hcell,
    hbody.run_eq limit position (by omega)]
  simp only [Except.bind]
  rw [charge_of_lt (by omega)]
  exact hrest.run_eq limit position hlimit

/-- A loop whose body leaves a zero runs once. -/
theorem Repeats.once (hpaid : 0 < s.spent) (hcell : s.cell ≠ 0) (hbody : body.Brings s t)
    (hend : t.cell = 0) : body.Repeats s t.tick :=
  Repeats.round hpaid hcell hbody (Repeats.stop hend)

end Block

/-! ## Cells in front of the tape -/

/-- The store with more cells in front of its tape. -/
def Store.behind (front : List UInt8) (s : Store) : Store :=
  { s with tape := front ++ s.tape, head := front.length + s.head }

namespace Store

variable (front : List UInt8) {limit : Nat} {s t : Store}

@[simp] theorem cell_behind (s : Store) : (s.behind front).cell = s.cell := by
  rw [cell, cell, behind, List.getD_eq_getElem?_getD, List.getD_eq_getElem?_getD,
    List.getElem?_append_right (Nat.le_add_right _ _), Nat.add_sub_cancel_left]

theorem put_behind (s : Store) (v : UInt8) :
    (s.behind front).put v = (s.put v).behind front := by
  simp [put, behind]

theorem charge_behind (h : s.charge limit = .ok t) :
    (s.behind front).charge limit = .ok (t.behind front) := by
  obtain ⟨rfl, hlt⟩ := eq_tick_of_charge h
  exact charge_of_lt hlt

/-- An action that succeeds does not see the left end of the tape. -/
theorem perform_behind {position : Nat} {a : Action} (h : s.perform position a = .ok t) :
    (s.behind front).perform position a = .ok (t.behind front) := by
  cases a with
  | right =>
    simp only [perform] at h ⊢
    split at h
    · next hlt =>
      cases h
      rw [if_pos (by simp only [behind, List.length_append]; omega)]
      rfl
    · contradiction
  | left =>
    simp only [perform] at h ⊢
    split at h
    · contradiction
    · next hhead =>
      cases h
      rw [if_neg (by simp only [behind]; omega)]
      simp only [behind, Except.ok.injEq, mk.injEq, true_and, and_true]
      omega
  | increment =>
    cases h
    exact congrArg Except.ok (by rw [cell_behind, put_behind])
  | decrement =>
    cases h
    exact congrArg Except.ok (by rw [cell_behind, put_behind])
  | output =>
    cases h
    simp only [perform, cell_behind]
    rfl
  | input =>
    simp only [perform] at h ⊢
    split at h
    · next hinput =>
      cases h
      rw [show (s.behind front).input = [] from hinput]
      exact congrArg Except.ok (put_behind front s 0)
    · next byte rest hinput =>
      cases h
      rw [show (s.behind front).input = byte :: rest from hinput]
      simp only [put_behind]
      rfl

theorem act_behind {position : Nat} {a : Action} (h : s.act limit position a = .ok t) :
    (s.behind front).act limit position a = .ok (t.behind front) := by
  obtain ⟨u, hu, hperform⟩ := bind_eq_ok h
  rw [act, charge_behind front hu]
  simp only [Except.bind]
  split at hperform
  · next hdone =>
    cases hperform
    rw [perform_behind front hdone]
  · contradiction

variable {body : Store → Store.Result}

theorem rounds_behind
    (hbody : ∀ s t, body s = .ok t → body (s.behind front) = .ok (t.behind front)) {left : Nat}
    (h : rounds limit body left s = .ok t) :
    rounds limit body left (s.behind front) = .ok (t.behind front) := by
  induction left generalizing s with
  | zero => contradiction
  | succ left ih =>
    obtain ⟨u, hu, hround⟩ := bind_eq_ok h
    obtain ⟨w, hw, hagain⟩ := bind_eq_ok hround
    rw [rounds, hbody s u hu]
    simp only [Except.bind]
    rw [charge_behind front hw]
    simp only [cell_behind]
    split at hagain
    · next hcell =>
      cases hagain
      rw [if_pos hcell]
    · next hcell =>
      rw [if_neg hcell]
      exact ih hagain

theorem repeatWhile_behind
    (hbody : ∀ s t, body s = .ok t → body (s.behind front) = .ok (t.behind front))
    (h : s.repeatWhile limit body = .ok t) :
    (s.behind front).repeatWhile limit body = .ok (t.behind front) := by
  unfold repeatWhile at h ⊢
  rw [cell_behind]
  split at h
  · next hcell =>
    cases h
    rw [if_pos hcell]
  · next hcell =>
    rw [if_neg hcell]
    exact rounds_behind front hbody h

end Store

namespace Block

open Store

variable {b body : Block} {s t : Store} (front : List UInt8)

/-- **A block that succeeds does not see the left end of the tape.** -/
theorem run_behind {limit position : Nat} (h : b.run limit position s = .ok t) :
    b.run limit position (s.behind front) = .ok (t.behind front) := by
  induction b generalizing position s t with
  | done =>
    cases h
    rfl
  | act a rest ih =>
    obtain ⟨u, hu, hrest⟩ := bind_eq_ok h
    rw [run, act_behind front hu]
    exact ih hrest
  | loop body rest ihbody ihrest =>
    obtain ⟨u, hu, hloop⟩ := bind_eq_ok h
    obtain ⟨w, hw, hrest⟩ := bind_eq_ok hloop
    have hframed : (u.behind front).repeatWhile limit (body.run limit (position + 1)) =
        .ok (w.behind front) := repeatWhile_behind front (fun _ _ h => ihbody h) hw
    rw [run, charge_behind front hu]
    simp only [Except.bind]
    rw [hframed]
    exact ihrest hrest

theorem Brings.behind (h : b.Brings s t) : b.Brings (s.behind front) (t.behind front) :=
  ⟨h.spent_le, fun limit position hle => run_behind front (h.run_eq limit position hle)⟩

theorem Repeats.behind (h : body.Repeats s t) : body.Repeats (s.behind front) (t.behind front) :=
  ⟨h.spent_le, fun limit position hle =>
    repeatWhile_behind front (fun _ _ h => run_behind front h) (h.run_eq limit position hle)⟩

end Block

end TapeTutor
