import TapeTutor.Proofs.Overshoot

/-!
# The shortest way from byte to byte

The generator compares fragments two at a time, and which of two equally long ones it keeps depends
on their order.  What it comes to does not: from every byte to every other, it takes a shortest of
the fragments that its options allow.

* `Candidate` lists what options allow.  It has no order, and the two directions of a difference
  stand side by side, the one that leaves the range of a byte only where cells wrap.
* `reach` takes a candidate, and no candidate is shorter (`shortest_reach`).
* Options that allow more have more candidates (`Candidate.mono`), so their shortest is not longer
  (`length_reach_le`).

A program is made of one such step for each byte.  The steps do not depend on how the bytes before
them were reached, so what holds of a step holds of the whole (`length_print_le`).
-/

namespace TapeTutor

/-- Everything that one set of options allows, the other one allows. -/
structure GeneratorOptions.Within (o o' : GeneratorOptions) : Prop where
  useLoops : o.useLoops = true → o'.useLoops = true
  wrapping : o.wrapping = true → o'.wrapping = true
  maxLoopFactor : o.maxLoopFactor ≤ o'.maxLoopFactor

/-- The simple options allow nothing that other options do not. -/
theorem GeneratorOptions.simple_within (o : GeneratorOptions) : simple.Within o :=
  ⟨nofun, nofun, UInt8.zero_le⟩

namespace Generator

/-- The fragments that options allow for the way from one byte to another. -/
inductive Candidate (o : GeneratorOptions) (v w : UInt8) : List Instruction → Prop where
  /-- Counting up, past 255 only where cells wrap. -/
  | up (h : o.wrapping = true ∨ v ≤ w) : Candidate o v w (plus (w - v).toNat)
  /-- Counting down, past zero only where cells wrap. -/
  | down (h : o.wrapping = true ∨ w ≤ v) : Candidate o v w (minus (v - w).toNat)
  /-- Clearing the cell and counting up. -/
  | count (h : o.useLoops = true) : Candidate o v w (count w)
  /-- A product with a factor up to the bound. -/
  | product (h : o.useLoops = true) {a : Nat} (hpos : 0 < a)
      (ha : a ≤ o.maxLoopFactor.toNat) : Candidate o v w (productFor w a)

variable {o o' : GeneratorOptions} {v w : UInt8} {c : List Instruction}

theorem Candidate.mono (ho : o.Within o') (h : Candidate o v w c) : Candidate o' v w c := by
  cases h with
  | up h => exact .up (h.imp_left ho.wrapping)
  | down h => exact .down (h.imp_left ho.wrapping)
  | count h => exact .count (ho.useLoops h)
  | product h hpos ha =>
    exact .product (ho.useLoops h) hpos (Nat.le_trans ha (UInt8.le_iff_toNat_le.mp ho.maxLoopFactor))

/-! ## Differences -/

/-- Without wrapping, too, a difference goes one of the two ways round. -/
theorem difference_of_not_wrapping (ho : o.wrapping = false) (v w : UInt8) :
    difference o v w = if v ≤ w then plus (w - v).toNat else minus (v - w).toNat := by
  rw [difference, if_neg (by rw [ho]; exact Bool.false_ne_true)]
  split
  · next hle =>
    rw [UInt8.toNat_sub_of_le _ _ hle, Nat.sub_eq_zero_of_le (UInt8.le_iff_toNat_le.mp hle), minus,
      List.replicate_zero, List.append_nil]
  · next hgt =>
    have hle : w ≤ v := UInt8.le_of_lt (UInt8.not_le.mp hgt)
    rw [UInt8.toNat_sub_of_le _ _ hle, Nat.sub_eq_zero_of_le (UInt8.le_iff_toNat_le.mp hle), plus,
      List.replicate_zero, List.nil_append]

theorem candidate_difference (o : GeneratorOptions) (v w : UInt8) :
    Candidate o v w (difference o v w) := by
  by_cases ho : o.wrapping = true
  · rw [difference, if_pos ho]
    dsimp only
    split
    · exact .up (Or.inl ho)
    · exact .down (Or.inl ho)
  · rw [difference_of_not_wrapping (Bool.eq_false_iff.mpr ho)]
    split
    · next hle => exact .up (Or.inr hle)
    · next hgt => exact .down (Or.inr (UInt8.le_of_lt (UInt8.not_le.mp hgt)))

/-- A difference is not longer than the way up, where that is allowed, nor than the way down. -/
theorem length_difference_le (o : GeneratorOptions) (v w : UInt8) :
    (o.wrapping = true ∨ v ≤ w → (difference o v w).length ≤ (w - v).toNat) ∧
      (o.wrapping = true ∨ w ≤ v → (difference o v w).length ≤ (v - w).toNat) := by
  by_cases ho : o.wrapping = true
  · rw [difference, if_pos ho]
    dsimp only
    split
    · next hle =>
      rw [plus, List.length_replicate]
      exact ⟨fun _ => Nat.le_refl _, fun _ => UInt8.le_iff_toNat_le.mp hle⟩
    · next hgt =>
      rw [minus, List.length_replicate]
      exact ⟨fun _ => Nat.le_of_lt (UInt8.lt_iff_toNat_lt.mp (UInt8.not_le.mp hgt)),
        fun _ => Nat.le_refl _⟩
  · rw [difference_of_not_wrapping (Bool.eq_false_iff.mpr ho)]
    split
    · next hle =>
      rw [plus, List.length_replicate]
      refine ⟨fun _ => Nat.le_refl _, fun h => ?_⟩
      -- both ways are allowed only if there is nothing to count
      obtain rfl := UInt8.le_antisymm hle (h.resolve_left ho)
      exact Nat.le_refl _
    · next hgt =>
      rw [minus, List.length_replicate]
      exact ⟨fun h => absurd (h.resolve_left ho) hgt, fun _ => Nat.le_refl _⟩

/-! ## Fresh starts -/

theorem candidate_freshStart (ho : o.useLoops = true) (v w : UInt8) :
    Candidate o v w (freshStart o w) := by
  rcases exists_of_freshStart o w with heq | ⟨a, hpos, ha, heq, _⟩
  · rw [heq]
    exact .count ho
  · rw [heq]
    exact .product ho hpos ha

/-- A fresh start is not longer than counting up, nor than any product.  For zero no product is
tried, and none would be shorter. -/
theorem length_freshStart_le (o : GeneratorOptions) (w : UInt8) :
    (freshStart o w).length ≤ (count w).length ∧
      ∀ a, 0 < a → a ≤ o.maxLoopFactor.toNat →
        (freshStart o w).length ≤ (productFor w a).length := by
  unfold freshStart
  split
  · next hzero =>
    refine ⟨Nat.le_refl _, fun a _ _ => ?_⟩
    have hcount : (count w).length = 3 := by
      rw [hzero]
      rfl
    rw [hcount, length_productFor, productLength]
    omega
  · obtain ⟨_, hcount, hproduct⟩ := foldl_shorter_cases (productFor w)
      (List.range' 1 o.maxLoopFactor.toNat) (count w)
    exact ⟨hcount, fun a hpos ha => hproduct a (List.mem_range'_1.mpr ⟨hpos, by omega⟩)⟩

/-! ## One step and many -/

theorem length_shorter (s t : List Instruction) :
    (shorter s t).length = min s.length t.length := by
  unfold shorter
  split <;> omega

/-- **From byte to byte the generator takes a shortest candidate.** -/
theorem shortest_reach (o : GeneratorOptions) (v w : UInt8) :
    Candidate o v w (reach o v w) ∧
      ∀ c, Candidate o v w c → (reach o v w).length ≤ c.length := by
  obtain ⟨hup, hdown⟩ := length_difference_le o v w
  obtain ⟨hcount, hproduct⟩ := length_freshStart_le o w
  by_cases ho : o.useLoops = true
  · rw [reach, if_pos ho, length_shorter]
    refine ⟨?_, fun c hc => ?_⟩
    · unfold shorter
      split
      · exact candidate_freshStart ho v w
      · exact candidate_difference o v w
    · cases hc with
      | up h =>
        rw [plus, List.length_replicate]
        exact Nat.le_trans (Nat.min_le_left _ _) (hup h)
      | down h =>
        rw [minus, List.length_replicate]
        exact Nat.le_trans (Nat.min_le_left _ _) (hdown h)
      | count _ => exact Nat.le_trans (Nat.min_le_right _ _) hcount
      | product _ hpos ha => exact Nat.le_trans (Nat.min_le_right _ _) (hproduct _ hpos ha)
  · rw [reach, if_neg ho]
    refine ⟨candidate_difference o v w, fun c hc => ?_⟩
    cases hc with
    | up h =>
      rw [plus, List.length_replicate]
      exact hup h
    | down h =>
      rw [minus, List.length_replicate]
      exact hdown h
    | count h => exact absurd h ho
    | product h _ _ => exact absurd h ho

/-- One step is not longer with options that allow more. -/
theorem length_reach_le (ho : o.Within o') (v w : UInt8) :
    (reach o' v w).length ≤ (reach o v w).length :=
  (shortest_reach o' v w).2 _ ((shortest_reach o v w).1.mono ho)

/-- And so are all steps together. -/
theorem length_print_le (ho : o.Within o') (v : UInt8) (bytes : List UInt8) :
    (print o' v bytes).length ≤ (print o v bytes).length := by
  induction bytes generalizing v with
  | nil => exact Nat.le_refl _
  | cons w bytes ih =>
    have hstep := length_reach_le ho v w
    have hrest := ih w
    rw [print, print, List.length_append, List.length_append, List.length_cons, List.length_cons]
    omega

end Generator

theorem length_spell (code : List Instruction) : (spell code).length = code.length := by
  rw [spell, String.length_ofList, List.length_map]

/-- **More freedom never makes code longer.**  Whatever the bytes, code that is generated with
options that allow everything the other ones allow is not longer.  So the compact code is never
longer than the simple code. -/
theorem freedom_never_lengthens (bytes : List UInt8) :
    (∀ o o' : GeneratorOptions, (o.useLoops = true → o'.useLoops = true) →
      (o.wrapping = true → o'.wrapping = true) → o.maxLoopFactor ≤ o'.maxLoopFactor →
      (spell (generate o' bytes)).length ≤ (spell (generate o bytes)).length) ∧
    (spell (generate {} bytes)).length ≤ (spell (generate .simple bytes)).length := by
  have hle : ∀ o o' : GeneratorOptions, o.Within o' →
      (spell (generate o' bytes)).length ≤ (spell (generate o bytes)).length := by
    intro o o' ho
    rw [length_spell, length_spell]
    exact Generator.length_print_le ho 0 bytes
  exact ⟨fun o o' hloops hwrapping hfactor => hle o o' ⟨hloops, hwrapping, hfactor⟩,
    hle .simple {} (GeneratorOptions.simple_within {})⟩

/-- With factors up to nine instead of four, and down past zero instead of up to the top. -/
theorem freedom_never_lengthens_round :
    (spell (generate { maxLoopFactor := 9 } [72, 254])).length ≤
      (spell (generate { maxLoopFactor := 4, wrapping := false } [72, 254])).length :=
  (freedom_never_lengthens [72, 254]).1 { maxLoopFactor := 4, wrapping := false }
    { maxLoopFactor := 9 } (by decide) (by decide) (by decide)

end TapeTutor
