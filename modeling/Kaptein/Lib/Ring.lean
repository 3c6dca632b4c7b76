-- A buffer that keeps the latest elements: it drops the oldest one before it takes a new
-- one at its capacity.
import Mathlib.Data.List.DropRight
import Mathlib.Tactic.Common

namespace rings

variable {α : Type*}

theorem rtake_of_length_le {xs : List α} {n : Nat} (h : xs.length ≤ n) : xs.rtake n = xs := by
  simp [List.rtake, Nat.sub_eq_zero_of_le h]

theorem rtake_min_length (xs : List α) (n : Nat) : xs.rtake (min n xs.length) = xs.rtake n := by
  unfold List.rtake
  congr 1
  omega

/-- The latest of the latest and more are the latest of all. -/
theorem rtake_rtake_append (xs ys : List α) (n : Nat) :
    (xs.rtake n ++ ys).rtake n = (xs ++ ys).rtake n := by
  simp only [List.rtake_eq_reverse_take_reverse, List.reverse_append, List.reverse_reverse,
    List.take_append, List.take_take, List.length_reverse]
  congr 3
  omega

/-- One more element, at the capacity in the place of the oldest one. -/
theorem evict_push {xs : List α} {n : Nat} (x : α) (hn : 0 < n) (h : xs.length ≤ n) :
    (if n ≤ xs.length then xs.tail else xs) ++ [x] = (xs ++ [x]).rtake n := by
  unfold List.rtake
  rw [List.length_append, List.length_singleton]
  by_cases hfull : n ≤ xs.length
  · have hone : xs.length + 1 - n = 1 := by omega
    rw [if_pos hfull, hone, List.drop_append_of_le_length (by omega), List.drop_one]
  · have hzero : xs.length + 1 - n = 0 := by omega
    rw [if_neg hfull, hzero, List.drop_zero]

end rings
