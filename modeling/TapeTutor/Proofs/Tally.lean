import Mathlib.Algebra.BigOperators.Group.List.Lemmas
import Mathlib.Algebra.GroupWithZero.Nat
import Mathlib.Data.Finset.Card
import TapeTutor.View.Stats

/-!
# Tallies count exactly

A tally is filled by one pass over a list: for each key that is met, its entry is raised by one, or
made with one in it.  Which keys there are does not matter, as long as the order of the map tells
them apart.  So what is shown here serves for the characters of instructions and for the numbers of
cells.

* One more of a key changes the entry of that key and no other (`getElem?_add`).
* Behind a pass over a list, each key that occurs in the list has as its entry how often it does,
  and no other key has an entry (`getElem?_ofList`).  The entries are therefore known from the keys
  (`toList_ofList`), and the counts add up to the length of the list (`sum_count_keys`).
* Numbers are ranked by their counts.  `Busier` compares the counts and, among equals, the numbers,
  and no number has two entries, so the order is strict (`pairwise_ranking`).
-/

namespace TapeTutor

/-- One number is busier than another: it has the larger count, or the same count and is the smaller
one. -/
def Busier (count : Nat → Nat) (c d : Nat) : Prop :=
  count d < count c ∨ count c = count d ∧ c < d

namespace Tally

section Keys

variable {α : Type} [DecidableEq α] [Ord α] [Std.TransOrd α] [Std.LawfulEqOrd α]
  {xs : List α} {k : α}

/-- One more of a key. -/
theorem getElem?_add (t : Std.TreeMap α Nat) (x k : α) :
    (add t x)[k]? = if x = k then some (t.getD k 0 + 1) else t[k]? := by
  rw [add, Std.TreeMap.getElem?_insert]
  simp only [Std.compare_eq_iff_eq]
  split
  · next h => rw [h]
  · rfl

/-- A pass over a list adds to each key how often it occurs there. -/
theorem getElem?_foldl_add (xs : List α) (t : Std.TreeMap α Nat) (k : α) :
    (xs.foldl add t)[k]? = if k ∈ xs then some (t.getD k 0 + xs.count k) else t[k]? := by
  induction xs generalizing t with
  | nil => simp
  | cons x xs ih =>
    rw [List.foldl_cons, ih, Std.TreeMap.getD_eq_getD_getElem?, getElem?_add]
    by_cases hx : x = k
    · by_cases hk : k ∈ xs
      · simp [hx, hk]
        omega
      · simp [hx, hk, List.count_eq_zero_of_not_mem hk]
    · simp [hx, Ne.symm hx, Std.TreeMap.getD_eq_getD_getElem?]

/-- **The pass counts exactly.** -/
theorem getElem?_ofList (xs : List α) (k : α) :
    (ofList xs)[k]? = if k ∈ xs then some (xs.count k) else none := by
  rw [ofList, getElem?_foldl_add]
  simp

theorem mem_toList_ofList {n : Nat} : (k, n) ∈ (ofList xs).toList ↔ k ∈ xs ∧ n = xs.count k := by
  rw [Std.TreeMap.mem_toList_iff_getElem?_eq_some, getElem?_ofList]
  split
  · next h => simp [h, eq_comm]
  · next h => simp [h]

/-- The keys are what occurs in the list. -/
theorem mem_keys_ofList : k ∈ (ofList xs).keys ↔ k ∈ xs := by
  rw [← Std.TreeMap.map_fst_toList_eq_keys, List.mem_map]
  constructor
  · rintro ⟨⟨k, n⟩, hmem, rfl⟩
    exact (mem_toList_ofList.mp hmem).1
  · intro hk
    exact ⟨(k, xs.count k), mem_toList_ofList.mpr ⟨hk, rfl⟩, rfl⟩

/-- Each key stands with its count. -/
theorem toList_ofList (xs : List α) :
    (ofList xs).toList = (ofList xs).keys.map fun k => (k, xs.count k) := by
  rw [← Std.TreeMap.map_fst_toList_eq_keys, List.map_map]
  refine (List.map_id _).symm.trans (List.map_congr_left fun a ha => ?_)
  exact Prod.ext rfl (mem_toList_ofList.mp ha).2

/-- No key is missing and none is there twice. -/
theorem perm_keys_ofList (xs : List α) : (ofList xs).keys.Perm xs.dedup := by
  refine (List.perm_ext_iff_of_nodup Std.TreeMap.nodup_keys (List.nodup_dedup xs)).mpr fun k => ?_
  rw [mem_keys_ofList, List.mem_dedup]

/-- **Everything counts once.** -/
theorem sum_count_keys (xs : List α) :
    ((ofList xs).keys.map fun k => xs.count k).sum = xs.length := by
  rw [((perm_keys_ofList xs).map _).sum_eq]
  exact List.sum_map_count_dedup_eq_length xs

theorem size_ofList (xs : List α) : (ofList xs).size = xs.toFinset.card := by
  rw [← Std.TreeMap.length_keys, (perm_keys_ofList xs).length_eq]
  rfl

end Keys

/-! ## Ranking numbers by their counts -/

variable {xs : List Nat}

/-- The numbers of a list, the most frequent first. -/
def ranking (xs : List Nat) : List Nat := (ranked (ofList xs)).map Prod.fst

theorem perm_ranked (t : Std.TreeMap Nat Nat) : (ranked t).Perm t.toList := List.mergeSort_perm _ _

/-- Each number is ranked with its count. -/
theorem ranked_ofList (xs : List Nat) :
    ranked (ofList xs) = (ranking xs).map fun c => (c, xs.count c) := by
  rw [ranking, List.map_map]
  refine (List.map_id _).symm.trans (List.map_congr_left fun a ha => ?_)
  exact Prod.ext rfl (mem_toList_ofList.mp ((perm_ranked _).mem_iff.mp ha)).2

theorem perm_ranking (xs : List Nat) : (ranking xs).Perm (ofList xs).keys := by
  rw [← Std.TreeMap.map_fst_toList_eq_keys]
  exact (perm_ranked (ofList xs)).map Prod.fst

theorem mem_ranking {c : Nat} : c ∈ ranking xs ↔ c ∈ xs := by
  rw [(perm_ranking xs).mem_iff, mem_keys_ofList]

theorem length_ranking (xs : List Nat) : (ranking xs).length = xs.toFinset.card := by
  rw [(perm_ranking xs).length_eq, Std.TreeMap.length_keys, size_ofList]

theorem before_iff {a b : Nat × Nat} :
    before a b = true ↔ b.2 < a.2 ∨ a.2 = b.2 ∧ a.1 ≤ b.1 := by
  simp [before]

/-- **A number is busier than those ranked behind it.** -/
theorem pairwise_ranking (xs : List Nat) : (ranking xs).Pairwise (Busier xs.count) := by
  have hsorted : (ranked (ofList xs)).Pairwise fun a b => before a b = true := by
    refine List.pairwise_mergeSort ?_ ?_ _
    · intro a b c
      simp only [before_iff]
      omega
    · intro a b
      simp only [Bool.or_eq_true, before_iff]
      omega
  have hnodup : (ranking xs).Nodup := (perm_ranking xs).nodup_iff.mpr Std.TreeMap.nodup_keys
  rw [ranked_ofList, List.pairwise_map] at hsorted
  refine (hsorted.and hnodup).imp ?_
  rintro c d ⟨hbefore, hne⟩
  simp only [before_iff] at hbefore
  rw [Busier]
  omega

end Tally

end TapeTutor
