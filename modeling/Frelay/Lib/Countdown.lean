import Mathlib.Algebra.BigOperators.Intervals
import Mathlib.Algebra.Order.BigOperators.Group.Finset
import Mathlib.Data.Set.Card

/-!
# Counting down a loop

A loop goes once through the indices below `n` and pays from a budget. Index `i` costs
`w i`; the cost of the indices to come may fall on the way, but does not rise.

* `left` — what the indices from `i` on cost;
* `left_le_ncard` — the marked elements that indices name, with one that none of them
  names, are at most all marked elements.
-/

namespace Lib

variable {v w : Nat → Nat} {n i : Nat}

/-- What the indices from `i` on cost. -/
def left (w : Nat → Nat) (n i : Nat) : Nat := ∑ k ∈ Finset.Ico i n, w k

theorem left_of_lt (h : i < n) : left w n i = w i + left w n (i + 1) :=
  Finset.sum_eq_sum_Ico_succ_bot h w

theorem left_mono (h : ∀ k, i ≤ k → v k ≤ w k) : left v n i ≤ left w n i :=
  Finset.sum_le_sum fun k hk => h k (Finset.mem_Ico.mp hk).1

/-- Once the rest costs nothing, none of it does. -/
theorem left_eq_zero (h : left w n i = 0) {k : Nat} (hk : i ≤ k) (hkn : k < n) : w k = 0 :=
  Finset.sum_eq_zero_iff.mp h k (Finset.mem_Ico.mpr ⟨hk, hkn⟩)

theorem left_add : left (fun k => v k + w k) n i = left v n i + left w n i :=
  Finset.sum_add_distrib

/-- The marked elements that the indices in `P` name by `f`, and `a`, which none of them
names, are among the marked elements. -/
theorem left_le_ncard {α : Type} {m : α → Bool} (hm : {x | m x = true}.Finite) {f : Nat → α}
    {P : Nat → Prop} [DecidablePred P] (hinj : ∀ i j, P i → P j → f i = f j → i = j) {a : α}
    (ha : ∀ i, P i → f i ≠ a) :
    left (fun k => if P k then (m (f k)).toNat else 0) n 0 + (m a).toNat ≤
      {x | m x = true}.ncard := by
  classical
  let I := (Finset.Ico 0 n).filter fun k => P k ∧ m (f k) = true
  have hI : left (fun k => if P k then (m (f k)).toNat else 0) n 0 = (I.image f).card := by
    have hinj' : Set.InjOn f (I : Set Nat) := by
      intro i hi j hj heq
      exact hinj i j (Finset.mem_filter.mp hi).2.1 (Finset.mem_filter.mp hj).2.1 heq
    rw [Finset.card_image_of_injOn hinj', Finset.card_filter, left]
    refine Finset.sum_congr rfl fun k _ => ?_
    by_cases hP : P k
    · cases m (f k) with
      | false => simp
      | true => simp [hP]
    · simp [hP]
  have hsub : ∀ x ∈ I.image f, m x = true := by
    intro x hx
    obtain ⟨k, hk, rfl⟩ := Finset.mem_image.mp hx
    exact (Finset.mem_filter.mp hk).2.2
  rw [hI]
  cases hma : m a with
  | false =>
      rw [Bool.toNat_false, Nat.add_zero, ← Set.ncard_coe_finset]
      exact Set.ncard_le_ncard hsub hm
  | true =>
      have hnot : a ∉ I.image f := by
        intro hmem
        obtain ⟨k, hk, heq⟩ := Finset.mem_image.mp hmem
        exact ha k (Finset.mem_filter.mp hk).2.1 heq
      rw [Bool.toNat_true, ← Finset.card_insert_of_notMem hnot, ← Set.ncard_coe_finset]
      refine Set.ncard_le_ncard (fun x hx => ?_) hm
      rcases Finset.mem_insert.mp hx with rfl | hx
      · exact hma
      · exact hsub x hx

end Lib
