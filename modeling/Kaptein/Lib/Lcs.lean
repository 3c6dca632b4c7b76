-- The longest common subsequences of two lists, and their length by the
-- recursion over both heads.
import Mathlib.Data.List.Basic

namespace lcs

section

variable {α : Type*}

/-- A common subsequence of the two lists that no other one exceeds. -/
structure IsLcs (c xs ys : List α) : Prop where
  left : c.Sublist xs
  right : c.Sublist ys
  longest : ∀ d : List α, d.Sublist xs → d.Sublist ys → d.length ≤ c.length

variable [DecidableEq α]

def lcs_length : List α → List α → Nat
  | [], _ => 0
  | _ :: _, [] => 0
  | a :: as, b :: bs =>
    if a = b then lcs_length as bs + 1
    else max (lcs_length as (b :: bs)) (lcs_length (a :: as) bs)
termination_by xs ys => xs.length + ys.length

@[simp] theorem lcs_length_nil_left (ys : List α) : lcs_length [] ys = 0 := by
  unfold lcs_length
  rfl

@[simp] theorem lcs_length_nil_right (xs : List α) : lcs_length xs [] = 0 := by
  unfold lcs_length
  cases xs <;> rfl

/-- An equal pair of heads is always worth taking. -/
theorem lcs_length_cons_self (a : α) (as bs : List α) :
    lcs_length (a :: as) (a :: bs) = lcs_length as bs + 1 := by
  rw [lcs_length, if_pos rfl]

theorem lcs_length_cons_ne {a b : α} (h : a ≠ b) (as bs : List α) :
    lcs_length (a :: as) (b :: bs) = max (lcs_length as (b :: bs)) (lcs_length (a :: as) bs) := by
  rw [lcs_length, if_neg h]

/-- No common subsequence is longer. -/
theorem length_le_lcs_length {d xs ys : List α} (hx : d.Sublist xs) (hy : d.Sublist ys) :
    d.length ≤ lcs_length xs ys := by
  induction xs, ys using lcs_length.induct generalizing d with
  | case1 ys =>
    rw [List.sublist_nil.mp hx]
    simp
  | case2 a as =>
    rw [List.sublist_nil.mp hy]
    simp
  | case3 as b bs ih =>
    have htail := ih hx.tail hy.tail
    rw [List.length_tail] at htail
    rw [lcs_length_cons_self]
    omega
  | case4 a as b bs hab ih₁ ih₂ =>
    rw [lcs_length_cons_ne hab]
    -- a subsequence that starts with `a` can not use `b`
    rcases List.sublist_cons_iff.mp hx with hx' | ⟨r, rfl, hr⟩
    · exact Nat.le_trans (ih₁ hx' hy) (Nat.le_max_left _ _)
    · rcases List.sublist_cons_iff.mp hy with hy' | ⟨s, hs, -⟩
      · exact Nat.le_trans (ih₂ hx hy') (Nat.le_max_right _ _)
      · rw [List.cons.injEq] at hs
        exact absurd hs.1 hab

theorem isLcs_of_length {c xs ys : List α} (hx : c.Sublist xs) (hy : c.Sublist ys)
    (hlen : c.length = lcs_length xs ys) : IsLcs c xs ys := by
  refine ⟨hx, hy, ?_⟩
  intro d hdx hdy
  rw [hlen]
  exact length_le_lcs_length hdx hdy

end

end lcs
