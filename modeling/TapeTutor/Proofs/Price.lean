import TapeTutor.Proofs.Contract
import TapeTutor.Proofs.Simulation
import TapeTutor.Proofs.Stepping

/-!
# What a program costs

A contract of a tree of loops is exact about its price, but it speaks only of ceilings that cover
the price.  For lower ones it does not have to: an execution that succeeds under a low ceiling comes
to the same under every higher one, and there the price is known (`exists_run_of_execute_ok`).  So an
execution succeeds if and only if its ceiling covers the price (`execute_ok_iff_of_brings`), and below
the price it is the ceiling that stops it, on the way that the contract describes
(`execute_cut_of_brings`).

A loop that does not end has no contract.  It has an invariant instead: something the body keeps, and
under which the cell is not zero (`Store.repeatWhile_ne_ok`).
-/

namespace TapeTutor

namespace Store

variable {limit : Nat} {body : Store → Store.Result} {Inv : Store → Prop}

/-- **A loop never ends** if its body, and the payment for the `]`, keep something under which the
cell is not zero. -/
theorem rounds_ne_ok (hcell : ∀ s, Inv s → s.cell ≠ 0) (htick : ∀ s, Inv s → Inv s.tick)
    (hbody : ∀ s t, Inv s → body s = .ok t → Inv t) {left : Nat} {s u : Store} (hs : Inv s) :
    rounds limit body left s ≠ .ok u := by
  induction left generalizing s with
  | zero => exact nofun
  | succ left ih =>
    intro h
    obtain ⟨t, ht, hround⟩ := bind_eq_ok h
    obtain ⟨w, hw, hagain⟩ := bind_eq_ok hround
    obtain ⟨rfl, _⟩ := eq_tick_of_charge hw
    have hnext : Inv t.tick := htick t (hbody s t hs ht)
    rw [if_neg (hcell _ hnext)] at hagain
    exact ih hnext hagain

theorem repeatWhile_ne_ok (hcell : ∀ s, Inv s → s.cell ≠ 0) (htick : ∀ s, Inv s → Inv s.tick)
    (hbody : ∀ s t, Inv s → body s = .ok t → Inv t) {s u : Store} (hs : Inv s) :
    s.repeatWhile limit body ≠ .ok u := by
  rw [repeatWhile, if_neg (hcell s hs)]
  exact rounds_ne_ok hcell htick hbody hs

/-- An action that has been paid for has been performed. -/
theorem perform_of_act {position : Nat} {s t : Store} {a : Action}
    (h : s.act limit position a = .ok t) : s.tick.perform position a = .ok t := by
  obtain ⟨w, hw, hperform⟩ := bind_eq_ok h
  obtain ⟨rfl, _⟩ := eq_tick_of_charge hw
  split at hperform
  · next hdone =>
    cases hperform
    exact hdone
  · contradiction

end Store

namespace Interpreter

variable {b : Block} {source : String} {t : Store} (it : Interpreter)

/-- A success is one of the tree under every ceiling that is not lower. -/
theorem exists_run_of_execute_ok (hb : b.code = clean source) {done : Completion}
    (h : (it.execute source).1 = .ok done) {limit : Nat} (hle : it.config.maxIterations ≤ limit) :
    ∃ u, b.run limit 0 (.fresh it.config.memorySize it.config.input.toList) = .ok u ∧
      u.spent = done.iterations := by
  have hwithin : WithinCeiling (it.execute source).1 := by
    intro e _ he
    cases h.symm.trans he
  have hraised : ((it.withCeiling limit).execute source).1 = .ok done := by
    rw [execute_raise it hle hwithin, h]
  have hagrees : Agrees ((it.withCeiling limit).execute source)
      (b.run limit 0 (.fresh it.config.memorySize it.config.input.toList)) :=
    execute_agrees_run (it.withCeiling limit) hb
  cases hrun : b.run limit 0 (.fresh it.config.memorySize it.config.input.toList) with
  | ok u =>
    rw [hrun] at hagrees
    obtain ⟨c, hc, _, hspent, _⟩ := hagrees
    cases hraised.symm.trans hc
    exact ⟨u, rfl, hspent.symm⟩
  | error e =>
    rw [hrun] at hagrees
    obtain ⟨e', he', _⟩ := hagrees
    cases hraised.symm.trans he'

/-- A ceiling that covers the price of a contract lets the tree run as the contract says. -/
theorem execute_of_brings (hb : b.code = clean source)
    (hbrings : b.Brings (.fresh it.config.memorySize it.config.input.toList) t)
    (hle : t.spent ≤ it.config.maxIterations) : Agrees (it.execute source) (.ok t) := by
  have h := execute_agrees_run it hb
  rwa [hbrings.run_eq _ _ hle] at h

/-- **An execution succeeds if and only if its ceiling covers the price.** -/
theorem execute_ok_iff_of_brings (hb : b.code = clean source)
    (hbrings : b.Brings (.fresh it.config.memorySize it.config.input.toList) t) :
    (∃ done, (it.execute source).1 = .ok done) ↔ t.spent ≤ it.config.maxIterations := by
  constructor
  · rintro ⟨done, hdone⟩
    obtain ⟨u, hu, hspent⟩ := it.exists_run_of_execute_ok hb hdone
      (Nat.le_max_left it.config.maxIterations t.spent)
    rw [hbrings.run_eq _ _ (Nat.le_max_right _ _)] at hu
    cases hu
    rw [hspent]
    exact iterations_le_of_execute it hdone
  · intro hle
    obtain ⟨done, hdone, _⟩ := it.execute_of_brings hb hbrings hle
    exact ⟨done, hdone⟩

/-- **Below the price the ceiling stops an execution**, and what has been written by then is the
beginning of what the contract writes. -/
theorem execute_cut_of_brings (hb : b.code = clean source)
    (hbrings : b.Brings (.fresh it.config.memorySize it.config.input.toList) t)
    (hlt : it.config.maxIterations < t.spent) :
    ∃ e, (it.execute source).1 = .error e ∧ e.fault = .ceiling it.config.maxIterations ∧
      e.output.toList <+: t.output := by
  have hle : it.config.maxIterations ≤ t.spent := Nat.le_of_lt hlt
  obtain ⟨done, hdone, houtput, _⟩ := (it.withCeiling t.spent).execute_of_brings hb hbrings
    (Nat.le_refl t.spent)
  -- Any other ending would be the same under the ceiling that covers the price.
  have hcut : ¬ WithinCeiling (it.execute source).1 := by
    intro hwithin
    rw [execute_raise it hle hwithin] at hdone
    have hpaid := (it.execute_ok_iff_of_brings hb hbrings).mp ⟨done, hdone⟩
    omega
  obtain ⟨e, limit, he, hceiling⟩ : ∃ e limit, (it.execute source).1 = .error e ∧
      e.fault = .ceiling limit := by
    simpa [WithinCeiling] using hcut
  obtain ⟨p, rs, m, hp, hpath, hcount, _, rfl, _⟩ := exists_path_of_execute_ceiling it he hceiling
  refine ⟨_, he, rfl, ?_⟩
  have hprefix := (prefix_of_path (it.withCeiling t.spent) hp hpath (hcount ▸ hle)).1
  rw [hdone] at hprefix
  exact houtput ▸ hprefix

end Interpreter

end TapeTutor
