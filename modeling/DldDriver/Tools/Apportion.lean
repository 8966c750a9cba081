/-
DldDriver/Tools/Apportion.lean

A whole number divided among `n` shares by the largest remainder: every share
is rounded down, and what is missing goes, one unit each, to the shares with
the largest remainders.

The shares sum to the whole number, so fewer units are missing than there are
shares, and no share gets two of them.
-/
import Mathlib.Algebra.Order.Floor.Ring
import Mathlib.Algebra.Order.BigOperators.Group.Finset
import Mathlib.Algebra.BigOperators.Fin
import Mathlib.Data.List.FinRange
import Mathlib.Data.List.Sort
import Mathlib.Tactic.Ring

namespace Apportion

variable {K : Type} [Field K] [LinearOrder K] [FloorRing K] {n : ℕ}

/-! ### Units given to a list of indices -/

/-- One unit more at every index of the list. -/
def bump (result : Fin n → ℤ) (order : List (Fin n)) : Fin n → ℤ :=
  order.foldl (fun result index => Function.update result index (result index + 1)) result

theorem bump_cons (result : Fin n → ℤ) (index : Fin n) (order : List (Fin n)) :
    bump result (index :: order) =
      bump (Function.update result index (result index + 1)) order := rfl

theorem bump_apply (result : Fin n → ℤ) {order : List (Fin n)} (h : order.Nodup) (i : Fin n) :
    bump result order i = result i + if i ∈ order then 1 else 0 := by
  induction order generalizing result with
  | nil => simp [bump]
  | cons index order ih =>
    obtain ⟨hnot, hnodup⟩ := List.nodup_cons.mp h
    rw [bump_cons, ih _ hnodup]
    by_cases hi : i = index
    · subst hi
      rw [Function.update_self, if_neg hnot, if_pos (List.mem_cons_self ..), add_zero]
    · rw [Function.update_of_ne hi]
      simp only [List.mem_cons, hi, false_or]

theorem sum_bump (result : Fin n → ℤ) (order : List (Fin n)) :
    ∑ i, bump result order i = ∑ i, result i + order.length := by
  induction order generalizing result with
  | nil => simp [bump]
  | cons index order ih =>
    have hstep : ∑ i, Function.update result index (result index + 1) i = ∑ i, result i + 1 := by
      rw [Finset.sum_update_of_mem (Finset.mem_univ index),
        ← Finset.add_sum_erase Finset.univ result (Finset.mem_univ index),
        Finset.sdiff_singleton_eq_erase]
      ring
    rw [bump_cons, ih, hstep, List.length_cons]
    push_cast
    ring

/-! ### The order of the remainders -/

/-- The first of two indices has the larger remainder. -/
def Before (share : Fin n → K) (i j : Fin n) : Prop := Int.fract (share j) ≤ Int.fract (share i)

instance (share : Fin n → K) : DecidableRel (Before share) :=
  fun i j => inferInstanceAs (Decidable (Int.fract (share j) ≤ Int.fract (share i)))

instance (share : Fin n → K) : Std.Total (Before share) :=
  ⟨fun i j => le_total (Int.fract (share j)) (Int.fract (share i))⟩

instance (share : Fin n → K) : IsTrans (Fin n) (Before share) :=
  ⟨fun _ _ _ hij hjk => le_trans hjk hij⟩

/-- The indices, largest remainder first; equal remainders keep their order. -/
def byRemainder (share : Fin n → K) : List (Fin n) :=
  (List.finRange n).insertionSort (Before share)

variable (share : Fin n → K)

theorem byRemainder_perm : (byRemainder share).Perm (List.finRange n) :=
  List.perm_insertionSort _ _

theorem byRemainder_nodup : (byRemainder share).Nodup :=
  (byRemainder_perm share).nodup_iff.mpr (List.nodup_finRange n)

theorem byRemainder_length : (byRemainder share).length = n := by
  rw [(byRemainder_perm share).length_eq, List.length_finRange]

theorem mem_byRemainder (i : Fin n) : i ∈ byRemainder share :=
  (byRemainder_perm share).mem_iff.mpr (List.mem_finRange i)

theorem byRemainder_sorted : (byRemainder share).Pairwise (Before share) :=
  List.pairwise_insertionSort _ _

/-- Whoever is served has no smaller remainder than whoever is not. -/
theorem fract_le_of_take {m : ℕ} {i j : Fin n} (hj : j ∈ (byRemainder share).take m)
    (hi : i ∉ (byRemainder share).take m) : Int.fract (share i) ≤ Int.fract (share j) := by
  have hsorted := byRemainder_sorted share
  rw [← List.take_append_drop m (byRemainder share)] at hsorted
  have hmem := mem_byRemainder share i
  rw [← List.take_append_drop m (byRemainder share)] at hmem
  have hdrop := (List.mem_append.mp hmem).resolve_left hi
  exact (List.pairwise_append.mp hsorted).2.2 j hj i hdrop

/-! ### The division -/

/-- The units that rounding down leaves over. -/
def missing (whole : ℤ) : ℤ := whole - ∑ i, ⌊share i⌋

def apportion (whole : ℤ) : Fin n → ℤ :=
  bump (fun i => ⌊share i⌋) ((byRemainder share).take (missing share whole).toNat)

variable {share} {whole : ℤ}

theorem missing_eq (h : ∑ i, share i = whole) :
    (missing share whole : K) = ∑ i, Int.fract (share i) := by
  rw [missing]
  push_cast
  rw [← h, ← Finset.sum_sub_distrib]
  rfl

theorem apportion_apply (whole : ℤ) (i : Fin n) : apportion share whole i =
    ⌊share i⌋ + if i ∈ (byRemainder share).take (missing share whole).toNat then 1 else 0 :=
  bump_apply _ ((byRemainder_nodup share).sublist (List.take_sublist _ _)) i

/-- A share is rounded down or up. -/
theorem apportion_floor (share : Fin n → K) (whole : ℤ) (i : Fin n) :
    apportion share whole i = ⌊share i⌋ ∨ apportion share whole i = ⌊share i⌋ + 1 := by
  rw [apportion_apply]
  by_cases hi : i ∈ (byRemainder share).take (missing share whole).toNat
  · rw [if_pos hi]
    exact .inr rfl
  · rw [if_neg hi, add_zero]
    exact .inl rfl

theorem apportion_nonneg (h : ∀ i, 0 ≤ share i) (whole : ℤ) (i : Fin n) :
    0 ≤ apportion share whole i := by
  have hfloor := Int.floor_nonneg.mpr (h i)
  rcases apportion_floor share whole i with hi | hi <;> omega

variable [IsStrictOrderedRing K]

theorem missing_nonneg (h : ∑ i, share i = whole) : 0 ≤ missing share whole := by
  have hsum : (0 : K) ≤ missing share whole := by
    rw [missing_eq h]
    exact Finset.sum_nonneg fun i _ => Int.fract_nonneg _
  exact_mod_cast hsum

/-- There is a share for every unit. -/
theorem missing_le (h : ∑ i, share i = whole) : missing share whole ≤ n := by
  have hsum : (missing share whole : K) ≤ n := by
    rw [missing_eq h]
    calc ∑ i, Int.fract (share i) ≤ ∑ _ : Fin n, (1 : K) :=
          Finset.sum_le_sum fun i _ => (Int.fract_lt_one _).le
      _ = n := by simp
  exact_mod_cast hsum

/-- Nothing is left over. -/
theorem sum_apportion (h : ∑ i, share i = whole) : ∑ i, apportion share whole i = whole := by
  have hnonneg := missing_nonneg h
  have hle := missing_le h
  have hlength : ((byRemainder share).take (missing share whole).toNat).length =
      (missing share whole).toNat := by
    rw [List.length_take, byRemainder_length]
    omega
  rw [apportion, sum_bump, hlength, Int.toNat_of_nonneg hnonneg, missing]
  ring

/-- A smaller share never gets more. -/
theorem apportion_mono (whole : ℤ) {i j : Fin n} (h : share j < share i) :
    apportion share whole j ≤ apportion share whole i := by
  rcases eq_or_lt_of_le (Int.floor_le_floor h.le) with heq | hlt
  · -- the floors agree, so the remainders differ
    have hfract : Int.fract (share j) < Int.fract (share i) := by
      rw [Int.fract, Int.fract, heq]
      exact sub_lt_sub_right h _
    rw [apportion_apply, apportion_apply, heq]
    by_cases hj : j ∈ (byRemainder share).take (missing share whole).toNat
    · have hi : i ∈ (byRemainder share).take (missing share whole).toNat := by
        by_contra hi
        exact absurd (fract_le_of_take share hj hi) (not_le.mpr hfract)
      rw [if_pos hi, if_pos hj]
    · rw [if_neg hj]
      split_ifs <;> omega
  · have hi := apportion_floor share whole i
    have hj := apportion_floor share whole j
    omega

end Apportion
