import TapeTutor.Proofs.Block

/-!
# Structured runs

A meaning for trees of loops that has no jumps, no instruction pointer and no table.  A run works
on a `Store`: the tape with a head on it, the input that is still to come, the output so far and
the number of instructions paid for.

* An action is paid for and then changes the store; a move off the tape fails, and is not paid
  for.
* `[body]` is paid for.  While the cell is not zero, the body runs and one more instruction is
  paid for, the `]`.
* Whoever has to pay when the ceiling is reached fails.

A run that fails hands out the store it had come to, next to the cause (`Store.Result`).

## Why the rounds are counted

A loop may go on for ever, but not at a price: every round pays for its `]`, so `limit` rounds
exhaust any purse.  `Store.rounds` therefore counts the rounds down from `limit`, which makes it
a recursion on a number, and the bound is never felt: on a store that has paid for the `[`, a
loop satisfies the plain equation of a while loop (`repeatWhile_eq`).
-/

namespace TapeTutor

/-- What a structured run works on. -/
structure Store where
  /-- The cells. -/
  tape : List UInt8
  /-- The cell under the head. -/
  head : Nat
  /-- The input bytes not yet read. -/
  input : List UInt8
  /-- The bytes written, in order. -/
  output : List UInt8
  /-- The number of instructions paid for. -/
  spent : Nat
deriving DecidableEq, Repr

/-- What a structured run comes to: a store, or a fault and the store it happened in. -/
abbrev Store.Result := Except (Fault × Store) Store

namespace Store

/-- A zeroed tape of `size` cells and all of the input. -/
def fresh (size : Nat) (input : List UInt8) : Store where
  tape := List.replicate size 0
  head := 0
  input := input
  output := []
  spent := 0

/-- The value of the cell under the head. -/
def cell (s : Store) : UInt8 := s.tape.getD s.head 0

/-- Puts a value into the cell under the head. -/
def put (s : Store) (value : UInt8) : Store := { s with tape := s.tape.set s.head value }

/-- The store with one more instruction paid for. -/
def tick (s : Store) : Store := { s with spent := s.spent + 1 }

/-- Pays for one instruction. -/
def charge (limit : Nat) (s : Store) : Store.Result :=
  if s.spent < limit then .ok s.tick else .error (.ceiling limit, s)

/-- What an action, which stands at `position`, does to a store. -/
def perform (position : Nat) (s : Store) : Action → Except Fault Store
  | .right =>
      if s.head + 1 < s.tape.length then .ok { s with head := s.head + 1 }
      else .error (.overflow position s.head)
  | .left =>
      if s.head = 0 then .error (.underflow position) else .ok { s with head := s.head - 1 }
  | .increment => .ok (s.put (s.cell + 1))
  | .decrement => .ok (s.put (s.cell - 1))
  | .output => .ok { s with output := s.output ++ [s.cell] }
  | .input =>
      match s.input with
      | [] => .ok (s.put 0)
      | byte :: rest => .ok { s.put byte with input := rest }

/-- Pays for an action and performs it; an action that fails is not paid for. -/
def act (limit position : Nat) (s : Store) (a : Action) : Store.Result :=
  (s.charge limit).bind fun t =>
    match t.perform position a with
    | .ok u => .ok u
    | .error fault => .error (fault, s)

/-- Runs a loop body and pays for the `]`, again and again until the cell is zero, for as many
rounds as there can be. -/
def rounds (limit : Nat) (body : Store → Store.Result) : (left : Nat) → Store → Store.Result
  | 0, s => .error (.ceiling limit, s)
  | left + 1, s =>
      (body s).bind fun t =>
        (t.charge limit).bind fun u => if u.cell = 0 then .ok u else rounds limit body left u

/-- Repeats a loop body, and the payment for its `]`, while the cell is not zero. -/
def repeatWhile (limit : Nat) (body : Store → Store.Result) (s : Store) : Store.Result :=
  if s.cell = 0 then .ok s else rounds limit body limit s

end Store

/-- Runs a block that stands at `position`, with a ceiling of `limit` instructions. -/
def Block.run (limit : Nat) : Block → (position : Nat) → Store → Store.Result
  | .done, _, s => .ok s
  | .act a rest, position, s => (s.act limit position a).bind (rest.run limit (position + 1))
  | .loop body rest, position, s =>
      (s.charge limit).bind fun t =>
        (t.repeatWhile limit (body.run limit (position + 1))).bind
          (rest.run limit (position + 1 + body.size + 1))

/-! ## The equation of a loop -/

namespace Store

@[simp] theorem cell_tick (s : Store) : s.tick.cell = s.cell := rfl

@[simp] theorem spent_tick (s : Store) : s.tick.spent = s.spent + 1 := rfl

theorem bind_eq_ok {v : Store.Result} {k : Store → Store.Result} {u : Store} (h : v.bind k = .ok u) :
    ∃ t, v = .ok t ∧ k t = .ok u := by
  cases v with
  | error e => contradiction
  | ok t => exact ⟨t, rfl, h⟩

theorem charge_of_lt {limit : Nat} {s : Store} (h : s.spent < limit) :
    s.charge limit = .ok s.tick :=
  if_pos h

theorem charge_of_le {limit : Nat} {s : Store} (h : limit ≤ s.spent) :
    s.charge limit = .error (.ceiling limit, s) :=
  if_neg (by omega)

theorem eq_tick_of_charge {limit : Nat} {s t : Store} (h : s.charge limit = .ok t) :
    t = s.tick ∧ s.spent < limit := by
  unfold charge at h
  split at h
  · next hlt =>
    cases h
    exact ⟨rfl, hlt⟩
  · contradiction

theorem spent_perform {position : Nat} {s t : Store} {a : Action}
    (h : s.perform position a = .ok t) : t.spent = s.spent := by
  cases a with
  | right =>
    simp only [perform] at h
    split at h
    · cases h; rfl
    · contradiction
  | left =>
    simp only [perform] at h
    split at h
    · contradiction
    · cases h; rfl
  | input =>
    simp only [perform] at h
    split at h <;> cases h <;> rfl
  | increment => cases h; rfl
  | decrement => cases h; rfl
  | output => cases h; rfl

theorem spent_act {limit position : Nat} {s t : Store} {a : Action}
    (h : s.act limit position a = .ok t) : t.spent = s.spent + 1 := by
  obtain ⟨u, hu, ht⟩ := bind_eq_ok h
  obtain ⟨rfl, _⟩ := eq_tick_of_charge hu
  split at ht
  · next hperform =>
    cases ht
    rw [spent_perform hperform, spent_tick]
  · contradiction

variable {limit : Nat} {body : Store → Store.Result}

theorem spent_le_rounds (hbody : ∀ s t, body s = .ok t → s.spent ≤ t.spent) {left : Nat}
    {s t : Store} (h : rounds limit body left s = .ok t) : s.spent ≤ t.spent := by
  induction left generalizing s with
  | zero => contradiction
  | succ left ih =>
    obtain ⟨u, hu, hrest⟩ := bind_eq_ok h
    obtain ⟨w, hw, hagain⟩ := bind_eq_ok hrest
    obtain ⟨rfl, _⟩ := eq_tick_of_charge hw
    have hle := hbody s u hu
    split at hagain
    · cases hagain
      rw [spent_tick]
      omega
    · have hle' := ih hagain
      rw [spent_tick] at hle'
      omega

/-- The number of rounds allowed does not matter once it exceeds what is left to pay with. -/
theorem rounds_eq_rounds (hbody : ∀ s t, body s = .ok t → s.spent ≤ t.spent) (n n' : Nat)
    {s : Store} (hs : s.spent ≤ limit) (hn : limit < n + s.spent) (hn' : limit < n' + s.spent) :
    rounds limit body n s = rounds limit body n' s := by
  induction n generalizing n' s with
  | zero => omega
  | succ n ih =>
    cases n' with
    | zero => omega
    | succ n' =>
      rw [rounds, rounds]
      cases hb : body s with
      | error e => rfl
      | ok t =>
        have hle := hbody s t hb
        show (t.charge limit).bind _ = (t.charge limit).bind _
        by_cases hlt : t.spent < limit
        · rw [charge_of_lt hlt]
          show (if t.tick.cell = 0 then _ else _) = (if t.tick.cell = 0 then _ else _)
          rw [ih n' (by rw [spent_tick]; omega) (by rw [spent_tick]; omega)
            (by rw [spent_tick]; omega)]
        · rw [charge_of_le (by omega)]
          rfl

/-- **The equation of a loop.**  On a store that has paid for the `[`, and can have, a loop is
the body, the payment for the `]`, and the loop again, for as long as the cell is not zero. -/
theorem repeatWhile_eq (hbody : ∀ s t, body s = .ok t → s.spent ≤ t.spent) {s : Store}
    (hpaid : 0 < s.spent) (hs : s.spent ≤ limit) :
    s.repeatWhile limit body =
      if s.cell = 0 then .ok s
      else (body s).bind fun t => (t.charge limit).bind (repeatWhile limit body) := by
  by_cases hcell : s.cell = 0
  · rw [repeatWhile, if_pos hcell, if_pos hcell]
  · rw [repeatWhile, if_neg hcell, if_neg hcell]
    obtain ⟨n, rfl⟩ : ∃ n, limit = n + 1 := ⟨limit - 1, by omega⟩
    rw [rounds]
    cases hb : body s with
    | error e => rfl
    | ok t =>
      have hle := hbody s t hb
      show (t.charge (n + 1)).bind _ = (t.charge (n + 1)).bind _
      by_cases hlt : t.spent < n + 1
      · rw [charge_of_lt hlt]
        show (if t.tick.cell = 0 then _ else _) = repeatWhile (n + 1) body t.tick
        -- one round is gone, and one payment with it
        rw [repeatWhile, rounds_eq_rounds hbody n (n + 1) (by rw [spent_tick]; omega)
          (by rw [spent_tick]; omega) (by rw [spent_tick]; omega)]
      · rw [charge_of_le (by omega)]
        rfl

end Store

namespace Block

open Store

/-- Nothing is ever paid back. -/
theorem spent_le_run {limit : Nat} {b : Block} {position : Nat} {s t : Store}
    (h : b.run limit position s = .ok t) : s.spent ≤ t.spent := by
  induction b generalizing position s t with
  | done =>
    cases h
    exact Nat.le_refl _
  | act a rest ih =>
    obtain ⟨u, hu, hrest⟩ := bind_eq_ok h
    have hle := ih hrest
    have heq := spent_act hu
    omega
  | loop body rest ihbody ihrest =>
    obtain ⟨u, hu, hloop⟩ := bind_eq_ok h
    obtain ⟨rfl, _⟩ := eq_tick_of_charge hu
    obtain ⟨w, hw, hrest⟩ := bind_eq_ok hloop
    have hle := ihrest hrest
    have hle' : s.tick.spent ≤ w.spent := by
      unfold repeatWhile at hw
      split at hw
      · cases hw
        exact Nat.le_refl _
      · exact spent_le_rounds (fun _ _ => ihbody) hw
    rw [spent_tick] at hle'
    omega

end Block

end TapeTutor
