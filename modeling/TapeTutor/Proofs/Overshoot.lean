import TapeTutor.Proofs.Wrapping

/-!
# Generated programs and cells that wrap

Without wrapping the generator counts from byte to byte the long way round, and so a difference
never leaves the range of a byte.  A fresh start does not ask: it takes the factor whose product
comes nearest, from below or from above, and nearest from above may be 256 or more.  Then the
product wraps, and wraps back when the excess is taken off (`Block.passes_product`).  The byte is
printed all the same.

Whether such a product is ever chosen depends on lengths.  A product is chosen only if no factor up
to the bound has a shorter one (`exists_of_freshStart`).  A factor of 40 or more is beaten by 16
(`productLength_sixteen_lt`), and a smaller one overshoots for the highest bytes only, so what
remains is a small table (`row_of_shortest`).  In each of its rows the factor is the largest one
allowed, since the next one would be shorter; the three columns are this factor, the byte, and the
highest byte from which counting up is longer than the product.

A program wraps on its way if and only if it goes from one byte to the next in a way that stands in
the table (`generated_never_wraps_iff`), and then it wraps twice each time.
-/

namespace TapeTutor

namespace Generator

open Block

/-! ## Lengths -/

/-- The length of the product with the factor `a` that makes `t`. -/
def productLength (t a : Nat) : Nat :=
  21 + a + cofactor t a + (t - a * cofactor t a) + (a * cofactor t a - t)

theorem length_productFor (w : UInt8) (a : Nat) :
    (productFor w a).length = productLength w.toNat a := by
  simp only [productFor, product, plus, minus, clear, List.length_append, List.length_replicate,
    List.length_cons, List.length_nil, productLength]
  omega

theorem length_difference {o : GeneratorOptions} (ho : o.wrapping = false) (v w : UInt8) :
    (difference o v w).length = (w.toNat - v.toNat) + (v.toNat - w.toNat) := by
  simp [difference, ho, plus, minus]

/-- The shortest of some fragments is the first one or a candidate, and no candidate is shorter. -/
theorem foldl_shorter_cases (f : Nat → List Instruction) (as : List Nat)
    (start : List Instruction) :
    (as.foldl (fun best a => shorter best (f a)) start = start ∨
        ∃ a ∈ as, as.foldl (fun best a => shorter best (f a)) start = f a) ∧
      (as.foldl (fun best a => shorter best (f a)) start).length ≤ start.length ∧
      ∀ a ∈ as, (as.foldl (fun best a => shorter best (f a)) start).length ≤ (f a).length := by
  induction as generalizing start with
  | nil => exact ⟨Or.inl rfl, Nat.le_refl _, List.forall_mem_nil _⟩
  | cons a as ih =>
    obtain ⟨hfrom, hstart, hall⟩ := ih (shorter start (f a))
    have hleft : (shorter start (f a)).length ≤ start.length := by
      unfold shorter
      split <;> omega
    have hright : (shorter start (f a)).length ≤ (f a).length := by
      unfold shorter
      split <;> omega
    rw [List.foldl_cons, List.forall_mem_cons]
    refine ⟨?_, Nat.le_trans hstart hleft, Nat.le_trans hstart hright, hall⟩
    rcases hfrom with heq | ⟨a', ha', heq⟩
    · rw [heq]
      unfold shorter
      split
      · exact Or.inr ⟨a, List.mem_cons_self, rfl⟩
      · exact Or.inl rfl
    · exact Or.inr ⟨a', List.mem_cons_of_mem a ha', heq⟩

/-- A fresh start counts up, or is a product that no other factor makes shorter. -/
theorem exists_of_freshStart (o : GeneratorOptions) (w : UInt8) :
    freshStart o w = count w ∨
      ∃ a, 0 < a ∧ a ≤ o.maxLoopFactor.toNat ∧ freshStart o w = productFor w a ∧
        ∀ a', 0 < a' → a' ≤ o.maxLoopFactor.toNat →
          productLength w.toNat a ≤ productLength w.toNat a' := by
  unfold freshStart
  split
  · exact Or.inl rfl
  · obtain ⟨hfrom, _, hall⟩ := foldl_shorter_cases (productFor w)
      (List.range' 1 o.maxLoopFactor.toNat) (count w)
    rcases hfrom with heq | ⟨a, ha, heq⟩
    · exact Or.inl heq
    · obtain ⟨hlow, hhigh⟩ := List.mem_range'_1.mp ha
      refine Or.inr ⟨a, by omega, by omega, heq, fun a' hpos hle => ?_⟩
      rw [← length_productFor, ← length_productFor, ← heq]
      exact hall a' (List.mem_range'_1.mpr ⟨by omega, by omega⟩)

/-! ## The table -/

/-- The bounds for factors and the bytes for which the shortest product is no byte, with the highest
byte from which it is shorter than counting up. -/
def overshooting : List (Nat × Nat × Nat) :=
  [(2, 255, 102), (4, 254, 162), (4, 255, 164), (6, 255, 181), (8, 253, 188), (8, 254, 190),
    (8, 255, 192)]

/-- The step from one byte to the next stands in the table. -/
def Overshoots (o : GeneratorOptions) (v w : UInt8) : Prop :=
  o.useLoops = true ∧
    ∃ row ∈ overshooting, o.maxLoopFactor.toNat = row.1 ∧ w.toNat = row.2.1 ∧ v.toNat ≤ row.2.2

instance (o : GeneratorOptions) (v w : UInt8) : Decidable (Overshoots o v w) :=
  inferInstanceAs (Decidable (_ ∧ _))

/-- A product of two bytes that comes nearest to a byte is below 512. -/
theorem mul_cofactor_lt (w : UInt8) {a : Nat} (hpos : 0 < a) (ha : a < 256) :
    a * cofactor w.toNat a < 512 := by
  have hw := w.toNat_lt
  rcases cofactor_bounds w.toNat hpos with ⟨hlow, _⟩ | ⟨hone, _⟩
  · omega
  · rw [hone, Nat.mul_one]
    omega

/-- A factor and a byte stand in a row of the table. -/
def Listed (a t : Nat) : Prop := ∃ row ∈ overshooting, a = row.1 ∧ t = row.2.1

instance (a t : Nat) : Decidable (Listed a t) :=
  inferInstanceAs (Decidable (∃ row ∈ overshooting, a = row.1 ∧ t = row.2.1))

/-- Among the factors below 40, the table has all that overshoot and are not beaten by a smaller
one. -/
theorem row_of_shortest :
    ∀ a < 40, ∀ i < 20, 256 ≤ a * cofactor (236 + i) a →
      (∀ a' < a, 0 < a' → productLength (236 + i) a ≤ productLength (236 + i) a') →
      Listed a (236 + i) := by
  decide +kernel

/-- What is in the table: the product overshoots, the next factor is shorter, and the last column is
where counting up begins to be longer. -/
theorem of_mem_overshooting : ∀ row ∈ overshooting,
    256 ≤ row.1 * cofactor row.2.1 row.1 ∧
      productLength row.2.1 (row.1 + 1) < productLength row.2.1 row.1 ∧
      row.2.1 = productLength row.2.1 row.1 + 1 + row.2.2 ∧ 253 ≤ row.2.1 := by
  decide +kernel

/-- The fresh starts of the table. -/
theorem foldl_of_mem_overshooting : ∀ row ∈ overshooting,
    (List.range' 1 row.1).foldl (fun best a => shorter best (productFor row.2.1.toUInt8 a))
      (count row.2.1.toUInt8) = productFor row.2.1.toUInt8 row.1 := by
  decide +kernel

/-- A large factor is beaten by 16. -/
theorem productLength_sixteen_lt {t a : Nat} (ht : t < 256) (ha : 40 ≤ a) :
    productLength t 16 < productLength t a := by
  have hsmall : productLength t 16 ≤ 61 := by
    rcases cofactor_bounds t (show 0 < 16 by omega) with ⟨hlow, hhigh⟩ | ⟨hone, hless⟩
    · unfold productLength
      omega
    · unfold productLength
      rw [hone]
      omega
  have hpos : 1 ≤ cofactor t a := Nat.le_max_left _ _
  have hlarge : 62 ≤ productLength t a := by
    unfold productLength
    omega
  omega

/-- **A shortest product that overshoots is in the table**, with the bound for factors as its
factor. -/
theorem exists_row_of_overshoot {bound a : Nat} {w : UInt8} (hpos : 0 < a) (ha : a ≤ bound)
    (hbound : bound < 256) (hover : 256 ≤ a * cofactor w.toNat a)
    (hmin : ∀ a', 0 < a' → a' ≤ bound → productLength w.toNat a ≤ productLength w.toNat a') :
    ∃ row ∈ overshooting, bound = row.1 ∧ a = row.1 ∧ w.toNat = row.2.1 := by
  have hw := w.toNat_lt
  have hsmall : a < 40 := by
    refine Nat.lt_of_not_le fun hlarge => ?_
    have hbeaten := productLength_sixteen_lt hw hlarge
    have hle := hmin 16 (by omega) (by omega)
    omega
  have hhigh : 236 ≤ w.toNat := by
    rcases cofactor_bounds w.toNat hpos with ⟨hlow, _⟩ | ⟨hone, _⟩
    · omega
    · rw [hone] at hover
      omega
  obtain ⟨i, hi⟩ := Nat.exists_eq_add_of_le hhigh
  rw [hi] at hover hmin
  obtain ⟨row, hrow, hfactor, hbyte⟩ := row_of_shortest a hsmall i (by omega) hover
    fun a' hlt hpos' => hmin a' hpos' (by omega)
  refine ⟨row, hrow, ?_, hfactor, by rw [hi, hbyte]⟩
  -- a larger bound would have let the next factor in
  obtain ⟨_, hnext, _⟩ := of_mem_overshooting row hrow
  rcases Nat.lt_or_ge row.1 bound with hlarger | hle
  · have hmin' := hmin (row.1 + 1) (by omega) hlarger
    rw [hbyte, hfactor] at hmin'
    omega
  · omega

/-! ## From byte to byte -/

/-- The instructions take the first cell from `v` to `w`, leave the others as they were, and wrap
that many times. -/
def Wraps (code : List Instruction) (v w : UInt8) (n : Nat) : Prop :=
  ∃ b : Block, b.code = code ∧ ∀ rest, b.Passes (v :: 0 :: rest, 0) (w :: 0 :: rest, 0) n

theorem wraps_difference {o : GeneratorOptions} (ho : o.wrapping = false) (v w : UInt8) :
    Wraps (difference o v w) v w 0 := by
  have hv := v.toNat_lt
  have hw := w.toNat_lt
  have hcode : difference o v w = plus (w.toNat - v.toNat) ++ minus (v.toNat - w.toNat) := by
    simp [difference, ho]
  have hsum : (v + UInt8.ofNat (w.toNat - v.toNat)).toNat = max v.toNat w.toNat := by
    rw [UInt8.toNat_add, UInt8.toNat_ofNat']
    omega
  have hend := ofNat_corrected v.toNat w
  rw [UInt8.ofNat_toNat] at hend
  refine ⟨(Block.plus _).append (Block.minus _), by rw [code_append, code_plus, code_minus, hcode],
    fun rest => ?_⟩
  have hplus : (Block.plus (w.toNat - v.toNat)).Passes (v :: 0 :: rest, 0)
      ((v + UInt8.ofNat (w.toNat - v.toNat)) :: 0 :: rest, 0) 0 :=
    passes_plus_head rfl (by omega)
  have hminus : (Block.minus (v.toNat - w.toNat)).Passes
      ((v + UInt8.ofNat (w.toNat - v.toNat)) :: 0 :: rest, 0) (w :: 0 :: rest, 0) 0 := by
    conv => arg 3; rw [← hend]
    refine (passes_minus _ _ (by simp)).cast ?_
    show (v.toNat - w.toNat + 255 - (v + UInt8.ofNat (w.toNat - v.toNat)).toNat) / 256 = 0
    rw [hsum]
    omega
  exact hplus.append hminus

theorem wraps_count (v w : UInt8) : Wraps (count w) v w 0 := by
  refine ⟨Block.clear.append (Block.plus w.toNat), by rw [code_append, code_clear, code_plus]; rfl,
    fun rest => ?_⟩
  have hplus : (Block.plus w.toNat).Passes (0 :: 0 :: rest, 0) (w :: 0 :: rest, 0) 0 :=
    passes_plus_head (by rw [UInt8.ofNat_toNat, UInt8.zero_add])
      (show 0 + w.toNat < 256 by have hw := w.toNat_lt; omega)
  exact (passes_clear v).append hplus

theorem wraps_productFor (v w : UInt8) {a : Nat} (hpos : 0 < a) (ha : a < 256) :
    Wraps (productFor w a) v w (if 256 ≤ a * cofactor w.toNat a then 2 else 0) :=
  ⟨_, code_multiply_collect _ _ _ _, fun _ => passes_product v w ha (mul_cofactor_lt w hpos ha)⟩

/-- In the rows of the table the product is taken, and it is no byte. -/
theorem reach_of_overshoots {o : GeneratorOptions} {v w : UInt8} (ho : o.wrapping = false)
    (h : Overshoots o v w) :
    reach o v w = productFor w o.maxLoopFactor.toNat ∧ 0 < o.maxLoopFactor.toNat ∧
      256 ≤ o.maxLoopFactor.toNat * cofactor w.toNat o.maxLoopFactor.toNat := by
  obtain ⟨hloops, row, hrow, hfactor, hbyte, hfrom⟩ := h
  obtain ⟨hover, _, hlength, hhigh⟩ := of_mem_overshooting row hrow
  rw [← hfactor, ← hbyte] at hover hlength
  have hfresh : freshStart o w = productFor w o.maxLoopFactor.toNat := by
    have hfold := foldl_of_mem_overshooting row hrow
    have hw : row.2.1.toUInt8 = w := by
      rw [← hbyte]
      exact UInt8.ofNat_toNat
    rw [hw, ← hfactor] at hfold
    have hne : w ≠ 0 := by
      rintro rfl
      rw [← hbyte] at hhigh
      contradiction
    rw [freshStart, if_neg hne, hfold]
  refine ⟨?_, ?_, hover⟩
  · rw [reach, if_pos hloops, shorter, if_pos, hfresh]
    rw [hfresh, length_productFor, length_difference ho]
    omega
  · refine Nat.pos_of_ne_zero fun hzero => ?_
    rw [hzero] at hover
    omega

theorem wraps_reach {o : GeneratorOptions} (ho : o.wrapping = false) (v w : UInt8) :
    Wraps (reach o v w) v w (if Overshoots o v w then 2 else 0) := by
  have hfactor := o.maxLoopFactor.toNat_lt
  split
  · next h =>
    obtain ⟨hreach, hpos, hover⟩ := reach_of_overshoots ho h
    have hwraps := wraps_productFor v w hpos hfactor
    rwa [if_pos hover, ← hreach] at hwraps
  · next h =>
    unfold reach
    split
    · next hloops =>
      unfold shorter
      split
      · next hshort =>
        rcases exists_of_freshStart o w with heq | ⟨a, hpos, hle, heq, hmin⟩
        · rw [heq]
          exact wraps_count v w
        · have hwraps := wraps_productFor v w hpos (by omega)
          rw [if_neg, ← heq] at hwraps
          · exact hwraps
          · intro hover
            -- a product that overshoots and is taken is a row of the table
            obtain ⟨row, hrow, hbound, rfl, hbyte⟩ :=
              exists_row_of_overshoot hpos hle hfactor hover hmin
            obtain ⟨_, _, hlength, hhigh⟩ := of_mem_overshooting row hrow
            have hpositive : 21 ≤ productLength row.2.1 row.1 := by
              unfold productLength
              omega
            rw [heq, length_productFor, length_difference ho, hbyte] at hshort
            have hv := v.toNat_lt
            exact h ⟨hloops, row, hrow, hbound, hbyte, by omega⟩
      · exact wraps_difference ho v w
    · exact wraps_difference ho v w

/-- Printing wraps twice for each step from byte to byte that stands in the table. -/
theorem exists_passes_print {o : GeneratorOptions} (ho : o.wrapping = false) (v : UInt8)
    (bytes : List UInt8) :
    ∃ b : Block, b.code = print o v bytes ∧ ∀ rest, ∃ last,
      b.Passes (v :: 0 :: rest, 0) (last :: 0 :: rest, 0)
        (2 * ((v :: bytes).zip bytes).countP fun e => Overshoots o e.1 e.2) := by
  induction bytes generalizing v with
  | nil => exact ⟨.done, rfl, fun rest => ⟨v, Passes.refl _⟩⟩
  | cons w bytes ih =>
    obtain ⟨b, hb, hreach⟩ := wraps_reach ho v w
    obtain ⟨c, hc, hprint⟩ := ih w
    refine ⟨b.append (.act .output c), ?_, fun rest => ?_⟩
    · rw [code_append, hb, code, hc]
      rfl
    · obtain ⟨last, hlast⟩ := hprint rest
      refine ⟨last, ((hreach rest).append (Passes.quiet (Action.does_output _) hlast)).cast ?_⟩
      rw [List.zip_cons_cons, List.countP_cons]
      by_cases h : Overshoots o v w
      · simp only [h, if_true, decide_true]
        omega
      · simp only [h, if_false, decide_false, Bool.false_eq_true]
        omega

end Generator

open Machine Generator

/-- A generated program runs to its end, and on the way it wraps twice for each step from byte to
byte that stands in the table. -/
theorem exists_path_generated {o : GeneratorOptions} (ho : o.wrapping = false) (bytes : List UInt8)
    (input : Array UInt8) {size : Nat} (hsize : 2 ≤ size) :
    ∃ p rs m, Program.parse (spell (generate o bytes)) = .ok p ∧
      Path p input (.fresh size) rs m ∧ p.size ≤ m.ip ∧
      wraps rs = 2 * ((0 :: bytes).zip bytes).countP fun e => Overshoots o e.1 e.2 := by
  obtain ⟨b, hb, hpasses⟩ := exists_passes_print ho 0 bytes
  obtain ⟨last, hlast⟩ := hpasses (List.replicate (size - 2) 0)
  obtain ⟨p, hp, hend, hplaced⟩ := Program.exists_ofInstructions_code b
  have hparse : Program.parse (spell (generate o bytes)) = .ok p := by
    rw [Program.parse, clean_spell, generate, ← hb]
    exact hp
  have hfresh : (Machine.fresh size).view = (0 :: 0 :: List.replicate (size - 2) 0, 0) := by
    refine Prod.ext ?_ rfl
    show (Array.replicate size 0).toList = _
    rw [Array.toList_replicate, ← List.replicate_succ, ← List.replicate_succ,
      show size - 2 + 1 + 1 = size by omega]
  obtain ⟨rs, m, hpath, _, hip, hwraps⟩ := hlast p input (.fresh size) hplaced hfresh
  refine ⟨p, rs, m, hparse, hpath, ?_, hwraps⟩
  rw [hip, hend]
  exact Nat.le_add_left _ _

/-- **Without wrapping, generated programs wrap in the rows of the table only.**  On a tape of at
least two cells, a program that the generator writes without wrapping never increments a cell that
holds 255 and never decrements one that holds 0, however far it is run, if and only if no byte is
reached from the one before it, or the first one from zero, in a way that stands in the table. -/
theorem generated_never_wraps_iff (o : GeneratorOptions) (bytes : List UInt8)
    (input : Array UInt8) (size : Nat) (ho : o.wrapping = false) (hsize : 2 ≤ size) :
    ∃ p, Program.parse (spell (generate o bytes)) = .ok p ∧
      ((∀ rs m, Path p input (.fresh size) rs m → ∀ r ∈ rs, ¬ r.Wraps) ↔
        ∀ e ∈ (0 :: bytes).zip bytes, ¬ Overshoots o e.1 e.2) := by
  obtain ⟨p, rs, m, hp, hpath, hend, hwraps⟩ := exists_path_generated ho bytes input hsize
  refine ⟨p, hp, ?_⟩
  have hquiet : wraps rs = 0 ↔ ∀ e ∈ (0 :: bytes).zip bytes, ¬ Overshoots o e.1 e.2 := by
    rw [hwraps, Nat.mul_eq_zero]
    simp [List.countP_eq_zero]
  rw [← hquiet, wraps_eq_zero_iff]
  constructor
  · intro h
    exact h rs m hpath
  · intro h rs' m' hpath' r hr
    exact h r ((hpath.records_prefix hend hpath').subset hr)

/-- Bytes that stand in no row for the factors up to 8. -/
theorem generated_never_wraps_iff_eight :
    ∃ p, Program.parse (spell (generate { maxLoopFactor := 8, wrapping := false } [72, 252, 193])) =
        .ok p ∧
      ∀ rs m, Path p #[] (.fresh 2) rs m → ∀ r ∈ rs, ¬ r.Wraps := by
  obtain ⟨p, hp, hiff⟩ := generated_never_wraps_iff { maxLoopFactor := 8, wrapping := false }
    [72, 252, 193] #[] 2 rfl (by decide)
  refine ⟨p, hp, hiff.mpr ?_⟩
  simp only [List.zip_cons_cons, List.zip_nil_right, List.forall_mem_cons]
  exact ⟨by decide, by decide, by decide, List.forall_mem_nil _⟩

/-- With factors up to 2, the byte 255 is made of twice 128. -/
theorem generated_wraps_at_255 :
    ∃ p rs m,
      Program.parse (spell (generate { maxLoopFactor := 2, wrapping := false } [255])) = .ok p ∧
        Path p #[] (.fresh 2) rs m ∧ ∃ r ∈ rs, r.Wraps := by
  obtain ⟨p, rs, m, hp, hpath, _, hwraps⟩ :=
    exists_path_generated (o := { maxLoopFactor := 2, wrapping := false }) rfl [255] #[]
      (Nat.le_refl 2)
  have hpositive : 0 < wraps rs := by
    rw [hwraps]
    decide
  obtain ⟨r, hr, hwrap⟩ := List.countP_pos_iff.mp hpositive
  exact ⟨p, rs, m, hp, hpath, r, hr, of_decide_eq_true hwrap⟩

end TapeTutor
