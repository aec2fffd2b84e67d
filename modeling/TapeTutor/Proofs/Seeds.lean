import TapeTutor.Proofs.Templates

/-!
# Every seed gives a fair exercise

An exercise is fair if its solution is accepted and if there is something left to do: the setup
alone must run, and must leave other cells than those that are asked for (`Exercise.Fair`).

Whether an exercise from a template is fair is known from the templates: the solution is accepted
under an exact condition, and the setup only counts (`fair_setValue`, `fair_moveValue`,
`fair_multiply`).  It remains to see which numbers a seed can lead to.  For this nothing has to be
known about how the stream mixes its bits.  A number is a remainder, so it is below what it was taken
of, and with the least value added it still fits a byte (`SeedStream.toNat_byteFrom`).
-/

namespace TapeTutor

/-! ## What a seed leads to -/

/-- A byte that is drawn from `n` consecutive ones, of which `low` is the least. -/
theorem SeedStream.toNat_byteFrom (s : SeedStream) (low : Nat) {n : UInt64} (hn : 0 < n)
    (hfits : low + n.toNat ≤ 256) :
    low ≤ (low + (s.below n).1).toUInt8.toNat ∧
      (low + (s.below n).1).toUInt8.toNat < low + n.toNat := by
  have hlt := s.below_lt hn
  have hbyte : (low + (s.below n).1).toUInt8.toNat = low + (s.below n).1 :=
    UInt8.toNat_ofNat_of_lt' (by show _ < 256; omega)
  omega

namespace Exercise

theorem ofSeed_beginner (seed : UInt64) :
    (∃ v : UInt8, 1 ≤ v.toNat ∧ v.toNat ≤ 20 ∧ ofSeed .beginner seed = some (setValue v)) ∨
    ∃ (v : UInt8) (d : Nat), 1 ≤ v.toNat ∧ v.toNat ≤ 10 ∧ 1 ≤ d ∧ d ≤ 3 ∧
      ofSeed .beginner seed = some (moveValue v d) := by
  let s : SeedStream := (SeedStream.below ⟨seed⟩ 2).2
  obtain hkind | hkind := eq_or_ne (SeedStream.below ⟨seed⟩ 2).1 0
  · have hv := s.toNat_byteFrom 1 (n := 20) (by decide) (by decide)
    exact .inl ⟨_, hv.1, Nat.le_of_lt_succ hv.2, if_pos hkind⟩
  · have hv := s.toNat_byteFrom 1 (n := 10) (by decide) (by decide)
    have hd := (s.below 10).2.below_lt (n := 3) (by decide)
    exact .inr ⟨_, _, hv.1, Nat.le_of_lt_succ hv.2, Nat.le_add_right 1 _, Nat.add_le_add_left
      (Nat.le_of_lt_succ hd) 1, if_neg hkind⟩

theorem ofSeed_intermediate (seed : UInt64) :
    ∃ x y : UInt8, 2 ≤ x.toNat ∧ x.toNat ≤ 6 ∧ 2 ≤ y.toNat ∧ y.toNat ≤ 6 ∧
      ofSeed .intermediate seed = some (multiply x y) := by
  let s : SeedStream := ⟨seed⟩
  have hx := s.toNat_byteFrom 2 (n := 5) (by decide) (by decide)
  have hy := (s.below 5).2.toNat_byteFrom 2 (n := 5) (by decide) (by decide)
  exact ⟨_, _, hx.1, Nat.le_of_lt_succ hx.2, hy.1, Nat.le_of_lt_succ hy.2, rfl⟩

/-! ## Fair exercises -/

/-- The solution is accepted, and the setup alone runs and leaves other cells. -/
structure Fair (e : Exercise) (config : Config) : Prop where
  accepts : e.Accepts config e.solution
  rejects : ∃ expected actual, grade (e.full "") e.tests config = some (.memory expected actual)

open Block (Brings plus code_plus brings_plus_fresh)

variable {config : Config} {e : Exercise} {cells : List UInt8}

/-- A setup that runs and leaves other cells is rejected for them. -/
theorem rejects_of_brings (hvalid : config.Valid) (htests : e.tests = [.leaving cells]) {b : Block}
    {t : Store} (hcode : b.code = clean (e.full ""))
    (hbrings : b.Brings (.fresh config.memorySize []) t) (hle : t.spent ≤ config.maxIterations)
    (hne : t.tape.take cells.length ≠ cells) :
    ∃ expected actual, grade (e.full "") e.tests config = some (.memory expected actual) := by
  rw [htests]
  exact ⟨_, _, (grade_leaving_of_brings hvalid hcode hbrings hle).trans (if_neg hne)⟩

/-- Without a setup all cells are zero. -/
theorem rejects_of_no_setup (hvalid : config.Valid) (hsetup : e.setup = "")
    (htests : e.tests = [.leaving cells]) {c : UInt8} (hc : c ∈ cells) (hne : c ≠ 0) :
    ∃ expected actual, grade (e.full "") e.tests config = some (.memory expected actual) := by
  refine rejects_of_brings hvalid htests (b := .done) ?_ (Brings.refl _) (Nat.zero_le _) ?_
  · rw [full, hsetup]
    rfl
  · intro hzeros
    rw [← hzeros] at hc
    exact hne (List.eq_of_mem_replicate (List.mem_of_mem_take hc))

theorem fair_setValue (hvalid : config.Valid) {v : UInt8} (hv : v ≠ 0)
    (hprice : v.toNat ≤ config.maxIterations) : (setValue v).Fair config where
  accepts := (accepts_setValue_iff hvalid v).mpr hprice
  rejects := rejects_of_no_setup hvalid rfl rfl (List.mem_singleton_self v) hv

theorem fair_multiply (hvalid : config.Valid) {x y : UInt8} (hxy : x * y ≠ 0)
    (hsize : 2 ≤ config.memorySize)
    (hprice : x.toNat + 1 + x.toNat * (y.toNat + 4) ≤ config.maxIterations) :
    (multiply x y).Fair config where
  accepts := (accepts_multiply_iff hvalid x y).mpr ⟨hsize, hprice⟩
  rejects := rejects_of_no_setup hvalid rfl rfl (by simp) hxy

theorem fair_moveValue (hvalid : config.Valid) {v : UInt8} {d : Nat} (hv : v ≠ 0) (hd : 1 ≤ d)
    (hsize : d + 1 ≤ config.memorySize)
    (hprice : v.toNat + 1 + v.toNat * (2 * d + 3) ≤ config.maxIterations) :
    (moveValue v d).Fair config where
  accepts := (accepts_moveValue_iff hvalid (.inl hd)).mpr ⟨hsize, hprice⟩
  rejects := by
    have hcode : (plus v.toNat).code = clean ((moveValue v d).full "") := by
      rw [code_plus, full, Interpreter.clean_append]
      exact ((List.append_nil _).trans (clean_repeated_of_clean rfl v.toNat)).symm
    obtain ⟨m, hm⟩ := Nat.exists_eq_add_of_le' hvalid.1
    have hbrings := @brings_plus_fresh [] v.toNat m
    rw [← hm] at hbrings
    refine rejects_of_brings hvalid rfl hcode hbrings (by simp only; omega) ?_
    -- The value is still on the first cell, where a zero is asked for.
    obtain ⟨d, rfl⟩ := Nat.exists_eq_add_of_le' hd
    simp [List.replicate_succ, hv]

/-! ## Seeds -/

/-- The numbers a seed leads to are small: on four cells and with 101 instructions every exercise
is fair. -/
theorem fair_of_ofSeed (hsize : 4 ≤ config.memorySize) (hlimit : 101 ≤ config.maxIterations)
    {level : Level} {seed : UInt64} (h : ofSeed level seed = some e) : e.Fair config := by
  have hvalid : config.Valid := ⟨by omega, by omega⟩
  cases level with
  | beginner =>
    obtain ⟨v, hlow, hhigh, hv⟩ | ⟨v, d, hlow, hhigh, hd, hd', hv⟩ := ofSeed_beginner seed
    · cases h.symm.trans hv
      exact fair_setValue hvalid (by rintro rfl; contradiction) (by omega)
    · cases h.symm.trans hv
      have hprice : v.toNat * (2 * d + 3) ≤ 10 * 9 := Nat.mul_le_mul hhigh (by omega)
      exact fair_moveValue hvalid (by rintro rfl; contradiction) hd (by omega) (by omega)
  | intermediate =>
    obtain ⟨x, y, hx, hx', hy, hy', hxy⟩ := ofSeed_intermediate seed
    cases h.symm.trans hxy
    have hprice : x.toNat * (y.toNat + 4) ≤ 6 * 10 := Nat.mul_le_mul hx' (by omega)
    have hproduct : x * y ≠ 0 := by
      have hleast : 2 * 2 ≤ x.toNat * y.toNat := Nat.mul_le_mul hx hy
      have hmost : x.toNat * y.toNat ≤ 6 * 6 := Nat.mul_le_mul hx' hy'
      intro hzero
      have hwrapped : x.toNat * y.toNat % 256 = 0 :=
        (UInt8.toNat_mul x y).symm.trans (congrArg UInt8.toNat hzero)
      omega
    exact fair_multiply hvalid hproduct (by omega) (by omega)
  | advanced => contradiction

/-- **Every seed gives a fair exercise.**  For the first level it is to set a value of 1 to 20, or to
move one of 1 to 10 by 1 to 3 cells; for the second level it is to multiply two factors of 2 to 6;
for the third there is none.  Under the default configuration the solution is accepted and the setup
alone is not, for it runs and leaves other cells. -/
theorem every_seed_is_fair (seed : UInt64) :
    ((∃ v : UInt8, 1 ≤ v.toNat ∧ v.toNat ≤ 20 ∧ ofSeed .beginner seed = some (setValue v)) ∨
      ∃ (v : UInt8) (d : Nat), 1 ≤ v.toNat ∧ v.toNat ≤ 10 ∧ 1 ≤ d ∧ d ≤ 3 ∧
        ofSeed .beginner seed = some (moveValue v d)) ∧
    (∃ x y : UInt8, 2 ≤ x.toNat ∧ x.toNat ≤ 6 ∧ 2 ≤ y.toNat ∧ y.toNat ≤ 6 ∧
      ofSeed .intermediate seed = some (multiply x y)) ∧
    ofSeed .advanced seed = none ∧
    ∀ level e, ofSeed level seed = some e →
      grade (e.full e.solution) e.tests {} = none ∧
      ∃ expected actual, grade (e.full "") e.tests {} = some (.memory expected actual) := by
  refine ⟨ofSeed_beginner seed, ofSeed_intermediate seed, rfl, fun level e h => ?_⟩
  have hfair : e.Fair {} := fair_of_ofSeed (by decide) (by decide) h
  exact ⟨hfair.accepts, hfair.rejects⟩

/-- Two seeds that lead to different templates of the first level, and the largest seed. -/
theorem every_seed_is_fair_samples :
    (ofSeed .beginner 0 = some (moveValue 1 2) ∧
      grade ((moveValue 1 2).full (moveValue 1 2).solution) (moveValue 1 2).tests {} = none) ∧
    (ofSeed .beginner 2 = some (setValue 7) ∧
      ∃ expected actual,
        grade ((setValue 7).full "") (setValue 7).tests {} = some (.memory expected actual)) ∧
    ∃ x y : UInt8, 2 ≤ x.toNat ∧ x.toNat ≤ 6 ∧ 2 ≤ y.toNat ∧ y.toNat ≤ 6 ∧
      ofSeed .intermediate 0xFFFFFFFFFFFFFFFF = some (multiply x y) := by
  have hmove : ofSeed .beginner 0 = some (moveValue 1 2) := by decide +kernel
  have hset : ofSeed .beginner 2 = some (setValue 7) := by decide +kernel
  exact ⟨⟨hmove, ((every_seed_is_fair 0).2.2.2 _ _ hmove).1⟩,
    ⟨hset, ((every_seed_is_fair 2).2.2.2 _ _ hset).2⟩,
    (every_seed_is_fair 0xFFFFFFFFFFFFFFFF).2.1⟩

end Exercise

end TapeTutor
