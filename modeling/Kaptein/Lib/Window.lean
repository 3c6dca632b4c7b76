-- The part of a list that a window shows, and a cursor that stays inside it.
import Mathlib.Data.List.Basic

namespace windows

variable {α β : Type*}

/-- The elements from one place up to another one, both moved into the list. -/
def slice (xs : List α) (start end_ : Nat) : List α := (xs.take end_).drop start

theorem getElem?_slice (xs : List α) (start end_ i : Nat) :
    (slice xs start end_)[i]? = if start + i < end_ then xs[start + i]? else none := by
  unfold slice
  rw [List.getElem?_drop, List.getElem?_take]

theorem map_slice (f : α → β) (xs : List α) (start end_ : Nat) :
    (slice xs start end_).map f = slice (xs.map f) start end_ := by
  simp [slice, List.map_drop, List.map_take]

/-- Ends past the list show the same as its end. -/
theorem slice_clamped (xs : List α) (start end_ : Nat) :
    slice xs (min start xs.length) (max (min end_ xs.length) (min start xs.length)) =
      slice xs start end_ := by
  apply List.ext_getElem?
  intro i
  rw [getElem?_slice, getElem?_slice]
  by_cases hs : start < xs.length
  · rw [Nat.min_eq_left (by omega)]
    by_cases hi : start + i < xs.length
    · split_ifs <;> first | rfl | omega
    · rw [List.getElem?_eq_none (by omega)]
      simp
  · rw [Nat.min_eq_right (by omega), List.getElem?_eq_none (by omega),
      List.getElem?_eq_none (by omega)]
    simp

/-- Two windows side by side show what one over both shows. -/
theorem slice_append_slice (xs : List α) {a b c : Nat} (hab : a ≤ b) (hbc : b ≤ c) :
    slice xs a b ++ slice xs b c = slice xs a c := by
  have htake : xs.take c = xs.take b ++ slice xs b c := by
    have hsplit := List.take_append_drop b (xs.take c)
    rw [List.take_take, Nat.min_eq_left hbc] at hsplit
    exact hsplit.symm
  have hshort : (slice xs b c).drop (a - (xs.take b).length) = slice xs b c := by
    by_cases ha : a ≤ (xs.take b).length
    · rw [Nat.sub_eq_zero_of_le ha, List.drop_zero]
    · have hnil : slice xs b c = [] := by
        rw [List.length_take] at ha
        unfold slice
        rw [List.drop_eq_nil_iff, List.length_take]
        omega
      simp [hnil]
  conv_rhs => unfold slice
  rw [htake, List.drop_append, hshort]
  rfl

theorem slice_all (xs : List α) {n : Nat} (h : xs.length ≤ n) : slice xs 0 n = xs := by
  simp [slice, List.take_of_length_le h]

/-- The cursor is inside the list and inside the window. -/
structure Framed (total selected scroll height : Nat) : Prop where
  above : scroll ≤ selected
  below : selected < scroll + height
  inside : selected < total

/-- A framed cursor reads from the window the element it stands on. -/
theorem getElem?_framed {xs : List α} {selected scroll height : Nat}
    (h : Framed xs.length selected scroll height) :
    (slice xs scroll (scroll + height))[selected - scroll]? = xs[selected]? := by
  have hplace : scroll + (selected - scroll) = selected := by
    have := h.above
    omega
  rw [getElem?_slice, hplace, if_pos h.below]

end windows
