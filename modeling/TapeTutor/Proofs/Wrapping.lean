import TapeTutor.Proofs.Generation

/-!
# How often a fragment wraps

A cell wraps when it holds 255 and is incremented, or holds 0 and is decremented.  What a fragment
makes of the cells is the same whether it wraps on the way or not, so a contract about stores cannot
tell.  The contracts here look at the records of a path instead and count those that wrap
(`Machine.wraps`): `b.Passes s t n` says that the block, wherever it stands, takes a machine from
the cells `s` to the cells `t` and wraps exactly `n` times on the way.  A machine is seen through
its tape and its head only (`Machine.view`).

The rules follow the structure of a block (`Passes.act`, `Passes.append`, `Passes.loop`), and counts
add up.  Adding `k` to a cell that holds `x`, at once or in many rounds, wraps `(x + k) / 256`
times, and so a loop has the same count as the sum it makes (`circles_transfer`, `circles_move`).

What comes out for the product of two factors is all or nothing: it does not wrap if the product is
a byte, and otherwise it wraps once on the way up and once on the way back (`passes_product`).
-/

namespace TapeTutor

/-! ## Records that wrap -/

/-- The instruction left the range of a byte: it incremented 255 or decremented 0. -/
def Record.Wraps (r : Record) : Prop :=
  (r.instruction = .increment ∧ r.value = 255) ∨ (r.instruction = .decrement ∧ r.value = 0)

instance (r : Record) : Decidable r.Wraps := inferInstanceAs (Decidable (_ ∨ _))

namespace Machine

variable {p : Program} {input : Array UInt8} {m m' m'' : Machine} {rs rs' : List Record}

/-- The number of records that wrap. -/
def wraps (rs : List Record) : Nat := rs.countP fun r => r.Wraps

theorem wraps_append (rs rs' : List Record) : wraps (rs ++ rs') = wraps rs + wraps rs' :=
  List.countP_append

theorem wraps_eq_zero_iff : wraps rs = 0 ↔ ∀ r ∈ rs, ¬ r.Wraps := by
  simp [wraps, List.countP_eq_zero]

/-- Of two paths from one machine, the one that gets to the end of the program contains the
other. -/
theorem Path.records_prefix (h : Path p input m rs m') (hend : p.size ≤ m'.ip)
    (h' : Path p input m rs' m'') : rs' <+: rs := by
  induction h generalizing rs' with
  | nil m =>
    cases h' with
    | nil => exact List.prefix_rfl
    | cons hs _ =>
      rw [step_of_size_le input hend] at hs
      cases hs
  | @cons m m₁ m₂ r rs hs _ ih =>
    cases h' with
    | nil => exact List.nil_prefix
    | cons hs' hrest' =>
      rw [hs] at hs'
      cases hs'
      exact List.cons_prefix_cons.mpr ⟨rfl, ih hend hrest'⟩

/-- Tape and head. -/
def view (m : Machine) : List UInt8 × Nat := (m.tape.toList, m.head)

theorem cell_of_view {tape : List UInt8} {head : Nat} (h : m.view = (tape, head)) :
    m.cell = tape.getD head 0 := by
  cases h
  simp [cell, Array.getD_eq_getD_getElem?, List.getD_eq_getElem?_getD]

/-- A bracket does not wrap, leaves the cells alone and decides where to go on. -/
theorem exists_path_open {close : Nat} (input : Array UInt8) (hi : p.get? m.ip = some .loopOpen)
    (ht : p.target? m.ip = some close) :
    ∃ r m', Path p input m [r] m' ∧ wraps [r] = 0 ∧ m'.view = m.view ∧
      AtLoop (m.ip + 1) (close + 1) m' := by
  have hstep := step_of_perform input hi (by simp [fault?, ht])
  rw [perform_open ht] at hstep
  exact ⟨_, _, .single hstep, rfl, rfl, rfl⟩

theorem exists_path_close {opener : Nat} (input : Array UInt8)
    (hi : p.get? m.ip = some .loopClose) (ht : p.target? m.ip = some opener) :
    ∃ r m', Path p input m [r] m' ∧ wraps [r] = 0 ∧ m'.view = m.view ∧
      AtLoop (opener + 1) (m.ip + 1) m' := by
  have hstep := step_of_perform input hi (by simp [fault?, ht])
  rw [perform_close ht] at hstep
  exact ⟨_, _, .single hstep, rfl, rfl, rfl⟩

end Machine

open Machine (Path wraps AtLoop)

/-! ## Actions -/

/-- The action can be executed, takes the cells to other cells and wraps that many times. -/
def Action.Does (a : Action) (before after : List UInt8 × Nat) (n : Nat) : Prop :=
  ∀ (p : Program) (input : Array UInt8) (m : Machine), m.view = before →
    m.fault? p a.instruction = none ∧ (m.perform p input a.instruction).view = after ∧
      wraps [m.record a.instruction] = n

namespace Action

variable {tape : List UInt8} {head : Nat}

theorem does_right (h : head + 1 < tape.length) :
    right.Does (tape, head) (tape, head + 1) 0 := by
  intro p input m hview
  cases hview
  have hfault : m.head + 1 < m.tape.size := by simpa using h
  exact ⟨if_pos hfault, rfl, rfl⟩

theorem does_left : left.Does (tape, head + 1) (tape, head) 0 := by
  intro p input m hview
  obtain ⟨rfl, hhead⟩ := Prod.mk.inj hview
  have hne : m.head ≠ 0 := by omega
  refine ⟨if_neg hne, Prod.ext rfl ?_, rfl⟩
  show m.head - 1 = head
  omega

theorem does_output (s : List UInt8 × Nat) : output.Does s s 0 := by
  intro p input m hview
  exact ⟨rfl, hview, rfl⟩

theorem does_increment :
    increment.Does (tape, head) (tape.set head (tape.getD head 0 + 1), head)
      (if tape.getD head 0 = 255 then 1 else 0) := by
  intro p input m hview
  have hcell := Machine.cell_of_view hview
  cases hview
  refine ⟨rfl, ?_, ?_⟩
  · rw [← hcell]
    simp [Machine.view, Machine.perform, Machine.effect, Machine.advance, Machine.write,
      instruction]
  · rw [← hcell]
    simp [wraps, Record.Wraps, Machine.record, instruction, List.countP_singleton]

theorem does_decrement :
    decrement.Does (tape, head) (tape.set head (tape.getD head 0 - 1), head)
      (if tape.getD head 0 = 0 then 1 else 0) := by
  intro p input m hview
  have hcell := Machine.cell_of_view hview
  cases hview
  refine ⟨rfl, ?_, ?_⟩
  · rw [← hcell]
    simp [Machine.view, Machine.perform, Machine.effect, Machine.advance, Machine.write,
      instruction]
  · rw [← hcell]
    simp [wraps, Record.Wraps, Machine.record, instruction, List.countP_singleton]

end Action

/-! ## Contracts -/

namespace Block

/-- Wherever it stands, the block takes a machine from the cells to other cells, gets to its end and
wraps that many times. -/
def Passes (b : Block) (before after : List UInt8 × Nat) (n : Nat) : Prop :=
  ∀ (p : Program) (input : Array UInt8) (m : Machine), b.Placed p m.ip → m.view = before →
    ∃ rs m', Path p input m rs m' ∧ m'.view = after ∧ m'.ip = m.ip + b.size ∧ wraps rs = n

/-- The same for a loop whose opening bracket, or closing bracket, has just been executed. -/
def Circles (body : Block) (before after : List UInt8 × Nat) (n : Nat) : Prop :=
  ∀ (p : Program) (input : Array UInt8) (opener : Nat) (m : Machine),
    body.Placed p (opener + 1) →
    p.get? (opener + 1 + body.size) = some .loopClose →
    p.target? (opener + 1 + body.size) = some opener →
    AtLoop (opener + 1) (opener + 1 + body.size + 1) m → m.view = before →
    ∃ rs m', Path p input m rs m' ∧ m'.view = after ∧ m'.ip = opener + 1 + body.size + 1 ∧
      wraps rs = n

variable {b c body : Block} {s t u : List UInt8 × Nat} {k n : Nat}

theorem placed_append {p : Program} {position : Nat} (h : (b.append c).Placed p position) :
    b.Placed p position ∧ c.Placed p (position + b.size) := by
  induction b generalizing position with
  | done => exact ⟨trivial, h⟩
  | act a rest ih =>
    obtain ⟨hi, hrest⟩ := h
    obtain ⟨hleft, hright⟩ := ih hrest
    rw [size_act, Nat.add_comm rest.size, ← Nat.add_assoc]
    exact ⟨⟨hi, hleft⟩, hright⟩
  | loop inner rest _ ih =>
    obtain ⟨hopen, hclose, hinner, hrest⟩ := h
    obtain ⟨hleft, hright⟩ := ih hrest
    rw [size_loop, show position + (inner.size + rest.size + 2) =
      position + 1 + inner.size + 1 + rest.size by omega]
    exact ⟨⟨hopen, hclose, hinner, hleft⟩, hright⟩

theorem Passes.refl (s : List UInt8 × Nat) : done.Passes s s 0 :=
  fun _ _ m _ hview => ⟨[], m, .nil m, hview, rfl, rfl⟩

theorem Passes.append (hb : b.Passes s t k) (hc : c.Passes t u n) :
    (b.append c).Passes s u (k + n) := by
  intro p input m hplaced hview
  obtain ⟨hleft, hright⟩ := placed_append hplaced
  obtain ⟨rs, m₁, hpath, hview₁, hip₁, hwraps⟩ := hb p input m hleft hview
  rw [← hip₁] at hright
  obtain ⟨rs', m₂, hpath', hview₂, hip₂, hwraps'⟩ := hc p input m₁ hright hview₁
  refine ⟨rs ++ rs', m₂, hpath.append hpath', hview₂, ?_, ?_⟩
  · rw [hip₂, hip₁, size, size, size, code_append, List.length_append, Nat.add_assoc]
  · rw [Machine.wraps_append, hwraps, hwraps']

theorem Passes.act {a : Action} (ha : a.Does s t k) (hc : c.Passes t u n) :
    (Block.act a c).Passes s u (k + n) := by
  intro p input m hplaced hview
  obtain ⟨hi, hrest⟩ := hplaced
  obtain ⟨hfault, hview₁, hwraps⟩ := ha p input m hview
  have hip₁ := Machine.ip_perform_action p input m a
  rw [← hip₁] at hrest
  obtain ⟨rs, m₂, hpath, hview₂, hip₂, hwraps'⟩ := hc p input _ hrest hview₁
  refine ⟨m.record a.instruction :: rs, m₂, .cons (Machine.step_of_perform input hi hfault) hpath,
    hview₂, ?_, ?_⟩
  · rw [hip₂, hip₁, size_act]
    omega
  · rw [← List.singleton_append, Machine.wraps_append, hwraps, hwraps']

/-- An action that cannot wrap, and then the rest. -/
theorem Passes.quiet {a : Action} (ha : a.Does s t 0) (hc : c.Passes t u n) :
    (Block.act a c).Passes s u n := by
  have h := Passes.act ha hc
  rwa [Nat.zero_add] at h

/-- A loop on a zero cell is over. -/
theorem Circles.stop {tape : List UInt8} {head : Nat} (hcell : tape.getD head 0 = 0) :
    body.Circles (tape, head) (tape, head) 0 := by
  intro p input opener m _ _ _ hat hview
  refine ⟨[], m, .nil m, hview, ?_, rfl⟩
  rw [hat, if_pos ((Machine.cell_of_view hview).trans hcell)]

/-- A loop on another cell runs its body and goes on. -/
theorem Circles.round {tape : List UInt8} {head : Nat} (hbody : body.Passes (tape, head) t k)
    (hrest : body.Circles t u n) (hcell : tape.getD head 0 ≠ 0) :
    body.Circles (tape, head) u (k + n) := by
  intro p input opener m hplaced hclose htarget hat hview
  have hstart : m.ip = opener + 1 := by
    rw [hat, if_neg]
    rw [Machine.cell_of_view hview]
    exact hcell
  obtain ⟨rs, m₁, hpath, hview₁, hip₁, hwraps⟩ :=
    hbody p input m (by rw [hstart]; exact hplaced) hview
  rw [hstart] at hip₁
  obtain ⟨r, m₂, hback, hquiet, hview₂, hat₂⟩ := Machine.exists_path_close input
    (by rw [hip₁]; exact hclose) (by rw [hip₁]; exact htarget)
  rw [hip₁] at hat₂
  obtain ⟨rs', m₃, hpath', hview₃, hip₃, hwraps'⟩ :=
    hrest p input opener m₂ hplaced hclose htarget hat₂ (hview₂.trans hview₁)
  refine ⟨rs ++ ([r] ++ rs'), m₃, hpath.append (hback.append hpath'), hview₃, hip₃, ?_⟩
  rw [Machine.wraps_append, Machine.wraps_append, hwraps, hquiet, hwraps', Nat.zero_add]

/-- A loop, and then the rest. -/
theorem Passes.loop (hbody : body.Circles s t k) (hc : c.Passes t u n) :
    (Block.loop body c).Passes s u (k + n) := by
  intro p input m hplaced hview
  obtain ⟨⟨hopen, htopen⟩, ⟨hclose, htclose⟩, hinner, hrest⟩ := hplaced
  obtain ⟨r, m₁, hinto, hquiet, hview₁, hat₁⟩ := Machine.exists_path_open input hopen htopen
  obtain ⟨rs, m₂, hpath, hview₂, hip₂, hwraps⟩ :=
    hbody p input m.ip m₁ hinner hclose htclose hat₁ (hview₁.trans hview)
  rw [← hip₂] at hrest
  obtain ⟨rs', m₃, hpath', hview₃, hip₃, hwraps'⟩ := hc p input m₂ hrest hview₂
  refine ⟨[r] ++ (rs ++ rs'), m₃, hinto.append (hpath.append hpath'), hview₃, ?_, ?_⟩
  · rw [hip₃, hip₂, size_loop]
    omega
  · rw [Machine.wraps_append, Machine.wraps_append, hquiet, hwraps, hwraps', Nat.zero_add]

theorem Passes.cast (h : b.Passes s t k) (hk : k = n) : b.Passes s t n := hk ▸ h

/-! ## Counting -/

/-- Counting up wraps as often as the sum contains 256: one step first. -/
theorem wraps_up_succ (x : UInt8) (k : Nat) :
    (x.toNat + (k + 1)) / 256 = (if x = 255 then 1 else 0) + ((x + 1).toNat + k) / 256 := by
  have hlt := x.toNat_lt
  have hsum : (x + 1).toNat = (x.toNat + 1) % 256 := UInt8.toNat_add x 1
  split
  · next h =>
    subst h
    rw [show (255 : UInt8).toNat = 255 from rfl, show (255 + 1 : UInt8).toNat = 0 from rfl]
    omega
  · next h =>
    have hne : x.toNat ≠ 255 := fun heq => h (UInt8.toNat_inj.mp heq)
    omega

/-- Counting down wraps whenever zero is passed: one step first. -/
theorem wraps_down_succ (x : UInt8) (k : Nat) :
    (k + 1 + 255 - x.toNat) / 256 =
      (if x = 0 then 1 else 0) + (k + 255 - (x + -1).toNat) / 256 := by
  have hlt := x.toNat_lt
  have hsum : (x + -1).toNat = (x.toNat + 255) % 256 := UInt8.toNat_add x (-1)
  split
  · next h =>
    subst h
    rw [show (0 : UInt8).toNat = 0 from rfl, show (0 + -1 : UInt8).toNat = 255 from rfl]
    omega
  · next h =>
    have hne : x.toNat ≠ 0 := fun heq => h (UInt8.toNat_inj.mp heq)
    omega

/-- An action that adds a fixed amount to the cell, repeated. -/
theorem passes_replicate {a : Action} {d : UInt8} (once : UInt8 → Nat)
    (times : Nat → UInt8 → Nat)
    (ha : ∀ tape head, a.Does (tape, head) (tape.set head (tape.getD head 0 + d), head)
      (once (tape.getD head 0)))
    (hzero : ∀ x, times 0 x = 0) (hsucc : ∀ k x, times (k + 1) x = once x + times k (x + d))
    (k : Nat) (tape : List UInt8) {head : Nat} (hs : head < tape.length) :
    (ofActions (List.replicate k a)).Passes (tape, head)
      (tape.set head (tape.getD head 0 + UInt8.ofNat k * d), head)
      (times k (tape.getD head 0)) := by
  induction k generalizing tape with
  | zero =>
    have hself : tape.set head (tape.getD head 0 + UInt8.ofNat 0 * d) = tape := by
      simp [hs]
    rw [hself, hzero]
    exact Passes.refl _
  | succ k ih =>
    have hnext := ih (tape.set head (tape.getD head 0 + d)) (by simpa using hs)
    have hcell : (tape.set head (tape.getD head 0 + d)).getD head 0 = tape.getD head 0 + d := by
      simp [hs]
    have hsum : tape.getD head 0 + d + UInt8.ofNat k * d =
        tape.getD head 0 + UInt8.ofNat (k + 1) * d := by
      rw [UInt8.ofNat_add]
      grind
    rw [hcell, List.set_set, hsum] at hnext
    rw [hsucc]
    exact Passes.act (ha tape head) hnext

theorem passes_plus (k : Nat) (tape : List UInt8) {head : Nat} (hs : head < tape.length) :
    (plus k).Passes (tape, head) (tape.set head (tape.getD head 0 + UInt8.ofNat k), head)
      (((tape.getD head 0).toNat + k) / 256) := by
  have hzero : ∀ x : UInt8, (x.toNat + 0) / 256 = 0 := by
    intro x
    have hlt := x.toNat_lt
    omega
  have h := passes_replicate (fun x => if x = 255 then 1 else 0) (fun k x => (x.toNat + k) / 256)
    (fun _ _ => Action.does_increment) hzero (fun k x => wraps_up_succ x k) k tape hs
  rwa [UInt8.mul_one] at h

/-- Counting up on the first cell, within the range of a byte. -/
theorem passes_plus_head {v w : UInt8} {rest : List UInt8} (h : v + UInt8.ofNat k = w)
    (hk : v.toNat + k < 256) : (plus k).Passes (v :: rest, 0) (w :: rest, 0) 0 := by
  rw [← h]
  exact (passes_plus k (v :: rest) (by simp)).cast (Nat.div_eq_of_lt hk)

theorem passes_minus (k : Nat) (tape : List UInt8) {head : Nat} (hs : head < tape.length) :
    (minus k).Passes (tape, head) (tape.set head (tape.getD head 0 - UInt8.ofNat k), head)
      ((k + 255 - (tape.getD head 0).toNat) / 256) := by
  have hdec : ∀ (tape : List UInt8) (head : Nat),
      Action.decrement.Does (tape, head) (tape.set head (tape.getD head 0 + -1), head)
        (if tape.getD head 0 = 0 then 1 else 0) := by
    intro tape head
    rw [← UInt8.sub_eq_add_neg]
    exact Action.does_decrement
  have hzero : ∀ x : UInt8, (0 + 255 - x.toNat) / 256 = 0 := by
    intro x
    omega
  have h := passes_replicate (fun x => if x = 0 then 1 else 0)
    (fun k x => (k + 255 - x.toNat) / 256) hdec hzero (fun k x => wraps_down_succ x k) k tape hs
  rwa [show tape.getD head 0 + UInt8.ofNat k * -1 = tape.getD head 0 - UInt8.ofNat k by grind] at h

/-- Counting a cell down to zero does not wrap. -/
theorem does_countdown {k : Nat} (hk : k + 1 < 256) {tape : List UInt8} {head : Nat}
    (hcell : tape.getD head 0 = UInt8.ofNat (k + 1)) :
    Action.decrement.Does (tape, head) (tape.set head (UInt8.ofNat k), head) 0 := by
  have h := @Action.does_decrement tape head
  rwa [hcell, if_neg (ofNat_succ_ne_zero hk), ofNat_succ_sub_one] at h

/-! ## The loops -/

variable {rest : List UInt8}

theorem circles_clear (k : Nat) (hk : k < 256) :
    (act .decrement done).Circles (UInt8.ofNat k :: rest, 0) (0 :: rest, 0) 0 := by
  induction k with
  | zero => exact Circles.stop rfl
  | succ k ih =>
    have hbody : (act .decrement done).Passes (UInt8.ofNat (k + 1) :: rest, 0)
        (UInt8.ofNat k :: rest, 0) 0 :=
      Passes.quiet (does_countdown hk (by rfl)) (Passes.refl _)
    exact Circles.round hbody (ih (by omega)) (ofNat_succ_ne_zero hk)

theorem circles_transfer (b k : Nat) (hk : k < 256) (y : UInt8) :
    (act .right ((plus b).append (act .left (act .decrement done)))).Circles
      (UInt8.ofNat k :: y :: rest, 0) (0 :: (y + UInt8.ofNat (k * b)) :: rest, 0)
      ((y.toNat + k * b) / 256) := by
  induction k generalizing y with
  | zero =>
    have hlt := y.toNat_lt
    rw [Nat.zero_mul, show y + UInt8.ofNat 0 = y from UInt8.add_zero y,
      show (y.toNat + 0) / 256 = 0 by omega]
    exact Circles.stop rfl
  | succ k ih =>
    have hbody : (act .right ((plus b).append (act .left (act .decrement done)))).Passes
        (UInt8.ofNat (k + 1) :: y :: rest, 0) (UInt8.ofNat k :: (y + UInt8.ofNat b) :: rest, 0)
        ((y.toNat + b) / 256) :=
      Passes.quiet (Action.does_right (by simp)) ((passes_plus b _ (by simp)).append
        (Passes.quiet Action.does_left (Passes.quiet (does_countdown hk (by rfl)) (Passes.refl _))))
    have h := Circles.round hbody (ih (by omega) (y + UInt8.ofNat b)) (ofNat_succ_ne_zero hk)
    have hsum : (y + UInt8.ofNat b).toNat = (y.toNat + b) % 256 := by
      rw [UInt8.toNat_add, UInt8.toNat_ofNat']
      omega
    rw [UInt8.add_assoc, ← UInt8.ofNat_add, show b + k * b = (k + 1) * b by
      rw [Nat.succ_mul, Nat.add_comm], hsum, show (y.toNat + b) / 256 +
        ((y.toNat + b) % 256 + k * b) / 256 = (y.toNat + (k + 1) * b) / 256 by
          rw [Nat.succ_mul]; omega] at h
    exact h

theorem circles_move (k : Nat) (hk : k < 256) (x : UInt8) :
    (act .left (act .increment (act .right (act .decrement done)))).Circles
      (x :: UInt8.ofNat k :: rest, 1) ((x + UInt8.ofNat k) :: 0 :: rest, 1)
      ((x.toNat + k) / 256) := by
  induction k generalizing x with
  | zero =>
    have hlt := x.toNat_lt
    rw [show x + UInt8.ofNat 0 = x from UInt8.add_zero x, show (x.toNat + 0) / 256 = 0 by omega]
    exact Circles.stop rfl
  | succ k ih =>
    have hbody : (act .left (act .increment (act .right (act .decrement done)))).Passes
        (x :: UInt8.ofNat (k + 1) :: rest, 1) ((x + 1) :: UInt8.ofNat k :: rest, 1)
        (if x = 255 then 1 else 0) :=
      Passes.quiet Action.does_left (Passes.act Action.does_increment
        (Passes.quiet (Action.does_right (by simp))
          (Passes.quiet (does_countdown hk (by rfl)) (Passes.refl _))))
    have h := Circles.round hbody (ih (by omega) (x + 1)) (ofNat_succ_ne_zero hk)
    rw [← wraps_up_succ, show x + 1 + UInt8.ofNat k = x + UInt8.ofNat (k + 1) by
      rw [UInt8.ofNat_add]; grind] at h
    exact h

/-! ## Fragments -/

theorem passes_clear (v : UInt8) : clear.Passes (v :: rest, 0) (0 :: rest, 0) 0 := by
  have h : (act .decrement done).Circles (UInt8.ofNat v.toNat :: rest, 0) (0 :: rest, 0) 0 :=
    circles_clear v.toNat v.toNat_lt
  rw [UInt8.ofNat_toNat] at h
  exact Passes.loop h (Passes.refl _)

theorem passes_multiply (v : UInt8) {a : Nat} (ha : a < 256) (b : Nat)
    (hc : c.Passes (0 :: UInt8.ofNat (a * b) :: rest, 0) u n) :
    (multiply a b c).Passes (v :: 0 :: rest, 0) u (a * b / 256 + n) := by
  have hneighbour : clear.Passes (0 :: 0 :: rest, 1) (0 :: 0 :: rest, 1) 0 :=
    Passes.loop (Circles.stop rfl) (Passes.refl _)
  have hplus : (plus a).Passes (0 :: 0 :: rest, 0) (UInt8.ofNat a :: 0 :: rest, 0) 0 :=
    passes_plus_head (UInt8.zero_add _) (show 0 + a < 256 by omega)
  have hloop : (act .right ((plus b).append (act .left (act .decrement done)))).Circles
      (UInt8.ofNat a :: 0 :: rest, 0) (0 :: (0 + UInt8.ofNat (a * b)) :: rest, 0)
      ((0 + a * b) / 256) := circles_transfer b a ha 0
  rw [UInt8.zero_add, Nat.zero_add] at hloop
  have h := (passes_clear v).append (Passes.quiet (Action.does_right (by simp)) (hneighbour.append
    (Passes.quiet Action.does_left (hplus.append (Passes.loop hloop hc)))))
  simp only [Nat.zero_add] at h
  exact h

theorem passes_collect {x t : UInt8} {up down : Nat}
    (ht : x + UInt8.ofNat up - UInt8.ofNat down = t) :
    (collect up down).Passes (0 :: x :: rest, 0) (t :: 0 :: rest, 0)
      ((x.toNat + up) / 256 + (down + 255 - (x + UInt8.ofNat up).toNat) / 256) := by
  have hup : (plus up).Passes (0 :: x :: rest, 1) (0 :: (x + UInt8.ofNat up) :: rest, 1)
      ((x.toNat + up) / 256) := passes_plus up _ (by simp)
  have hdown : (minus down).Passes (0 :: (x + UInt8.ofNat up) :: rest, 1) (0 :: t :: rest, 1)
      ((down + 255 - (x + UInt8.ofNat up).toNat) / 256) := by
    rw [← ht]
    exact passes_minus down _ (by simp)
  have hmove : (act .left (act .increment (act .right (act .decrement done)))).Circles
      (0 :: UInt8.ofNat t.toNat :: rest, 1) ((0 + UInt8.ofNat t.toNat) :: 0 :: rest, 1)
      ((0 + t.toNat) / 256) := circles_move t.toNat t.toNat_lt 0
  rw [UInt8.ofNat_toNat, UInt8.zero_add, Nat.zero_add, Nat.div_eq_of_lt t.toNat_lt] at hmove
  exact Passes.quiet (Action.does_right (by simp)) (hup.append (hdown.append (Passes.loop hmove
    (Passes.quiet Action.does_left (Passes.refl _)))))

/-- **A product wraps twice or never.**  If it is not a byte, then the neighbour wraps on the way
up, and again when the excess is taken off. -/
theorem passes_product (v t : UInt8) {a b : Nat} (ha : a < 256) (hab : a * b < 512) :
    (multiply a b (collect (t.toNat - a * b) (a * b - t.toNat))).Passes (v :: 0 :: rest, 0)
      (t :: 0 :: rest, 0) (if 256 ≤ a * b then 2 else 0) := by
  have hsum : (UInt8.ofNat (a * b) + UInt8.ofNat (t.toNat - a * b)).toNat =
      (a * b + (t.toNat - a * b)) % 256 := by
    rw [← UInt8.ofNat_add, UInt8.toNat_ofNat']
  have ht := t.toNat_lt
  refine (passes_multiply v ha b (passes_collect (Generator.ofNat_corrected (a * b) t))).cast ?_
  rw [hsum, UInt8.toNat_ofNat']
  split
  · omega
  · omega

end Block

end TapeTutor
