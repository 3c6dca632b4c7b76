-- The rational number that a JSON number stands for. A finite double is an
-- integer in units of the smallest one above zero.
import Mathlib.Data.Rat.Cast.Order
import Mathlib.Order.Monotone.Basic
import Mathlib.Tactic.Positivity
import Kaptein.Lib.Value

namespace serde_json

/-! ## Doubles -/

/-- The size of a double, by its bits without the sign: a subnormal number as it
stands, and else the fraction with its leading one, shifted by the exponent. -/
def unsigned_scaled (n : Nat) : Nat :=
  if n < 2 ^ 52 then n else (2 ^ 52 + n % 2 ^ 52) * 2 ^ (n / 2 ^ 52 - 1)

theorem unsigned_scaled_lt_succ (n : Nat) : unsigned_scaled n < unsigned_scaled (n + 1) := by
  unfold unsigned_scaled
  by_cases hsub : n + 1 < 2 ^ 52
  · rw [if_pos (by omega), if_pos hsub]
    omega
  · rw [if_neg hsub]
    by_cases hlast : n < 2 ^ 52
    · have hn : n + 1 = 2 ^ 52 := by omega
      rw [if_pos hlast, hn]
      omega
    · rw [if_neg hlast]
      obtain ⟨e, he⟩ : ∃ e, n / 2 ^ 52 = e + 1 := ⟨n / 2 ^ 52 - 1, by omega⟩
      by_cases hcarry : n % 2 ^ 52 + 1 < 2 ^ 52
      · have hdiv : (n + 1) / 2 ^ 52 = e + 1 := by omega
        have hmod : (n + 1) % 2 ^ 52 = n % 2 ^ 52 + 1 := by omega
        rw [he, hdiv, hmod]
        exact Nat.mul_lt_mul_of_pos_right (by omega) (by positivity)
      · have hdiv : (n + 1) / 2 ^ 52 = e + 2 := by omega
        have hmod : (n + 1) % 2 ^ 52 = 0 := by omega
        have hpow : 2 ^ (e + 1) = 2 ^ e * 2 := pow_succ 2 e
        have hpos : 0 < 2 ^ e := by positivity
        rw [he, hdiv, hmod, Nat.add_sub_cancel, show e + 2 - 1 = e + 1 by omega, hpow, Nat.add_zero,
          ← Nat.mul_assoc, Nat.mul_right_comm]
        exact Nat.mul_lt_mul_of_pos_right (by omega) hpos

/-- A larger pattern of bits is a larger double. -/
theorem unsigned_scaled_strictMono : StrictMono unsigned_scaled :=
  strictMono_nat_of_lt_succ unsigned_scaled_lt_succ

theorem unsigned_scaled_eq_zero {n : Nat} : unsigned_scaled n = 0 ↔ n = 0 :=
  unsigned_scaled_strictMono.injective.eq_iff' rfl

def F64.is_negative (x : F64) : Bool := decide (2 ^ 63 ≤ x.bits.toNat)

def F64.scaled (x : F64) : Int :=
  if x.is_negative then -(unsigned_scaled (x.bits.toNat % 2 ^ 63) : Int)
  else unsigned_scaled (x.bits.toNat % 2 ^ 63)

def F64.value (x : F64) : ℚ := x.scaled / 2 ^ 1074

theorem F64.is_zero_iff (x : F64) : x.is_zero = true ↔ x.scaled = 0 := by
  have hscaled : x.scaled = 0 ↔ unsigned_scaled (x.bits.toNat % 2 ^ 63) = 0 := by
    unfold scaled
    split <;> omega
  rw [hscaled, unsigned_scaled_eq_zero, is_zero, beq_iff_eq]

/-- Two doubles are equal when they stand for one number. -/
theorem F64.eq_iff_value (x y : F64) : x.eq y = true ↔ x.value = y.value := by
  have hvalue : x.value = y.value ↔ x.scaled = y.scaled := by
    unfold value
    rw [div_left_inj' (by positivity), Int.cast_inj]
  have hx := x.is_zero_iff
  have hy := y.is_zero_iff
  rw [hvalue, F64.eq, Bool.or_eq_true, Bool.and_eq_true, beq_iff_eq, hx, hy]
  constructor
  · rintro (hbits | ⟨hx0, hy0⟩)
    · unfold scaled is_negative
      rw [hbits]
    · rw [hx0, hy0]
  · intro hscaled
    by_cases h0 : x.scaled = 0
    · exact .inr ⟨h0, hscaled ▸ h0⟩
    · left
      have hinj := @(unsigned_scaled_strictMono.injective)
      have hxlt := x.bits.toNat_lt
      have hylt := y.bits.toNat_lt
      have hmod : x.bits.toNat % 2 ^ 63 = y.bits.toNat % 2 ^ 63 ∧
          x.is_negative = y.is_negative := by
        unfold scaled at hscaled h0
        cases hxs : x.is_negative <;> cases hys : y.is_negative <;>
          simp only [hxs, hys, if_true, if_false, Bool.false_eq_true] at hscaled h0
        · exact ⟨hinj (by omega), rfl⟩
        · omega
        · omega
        · exact ⟨hinj (by omega), rfl⟩
      rw [← UInt64.toNat_inj]
      simp only [is_negative, decide_eq_decide] at hmod
      omega

/-! ## Numbers -/

def Number.is_f64 : Number → Bool
  | .Float _ => true
  | _ => false

def Number.value : Number → ℚ
  | .PosInt n _ => n
  | .NegInt i _ => i
  | .Float x => x.value

theorem Number.value_of_as_i64 {n : Number} {i : Int} (h : n.as_i64 = some i) : n.value = i := by
  cases n with
  | PosInt n fits =>
    simp only [as_i64, Option.ite_none_right_eq_some, Option.some.injEq] at h
    rw [← h.2]
    simp [value]
  | NegInt j fits =>
    simp only [as_i64, Option.some.injEq] at h
    rw [value, h]
  | Float x => cases h

theorem Number.not_f64_of_as_i64 {n : Number} {i : Int} (h : n.as_i64 = some i) :
    n.is_f64 = false := by
  cases n with
  | PosInt n fits => rfl
  | NegInt j fits => rfl
  | Float x => cases h

/-- `==` on numbers is the numeric equality of two integers or of two doubles. -/
theorem Number.eq_iff (a b : Number) :
    a.eq b = true ↔ a.is_f64 = b.is_f64 ∧ a.value = b.value := by
  cases a with
  | PosInt m hm =>
    cases b with
    | PosInt n hn => simp [Number.eq, is_f64, value]
    | NegInt j hj =>
      have hne : (m : ℚ) ≠ (j : ℚ) := by
        intro h
        have hint : (m : Int) = j := by exact_mod_cast h
        omega
      simp [Number.eq, is_f64, value, hne]
    | Float y => simp [Number.eq, is_f64]
  | NegInt i hi =>
    cases b with
    | PosInt n hn =>
      have hne : (i : ℚ) ≠ (n : ℚ) := by
        intro h
        have hint : i = (n : Int) := by exact_mod_cast h
        omega
      simp [Number.eq, is_f64, value, hne]
    | NegInt j hj => simp [Number.eq, is_f64, value]
    | Float y => simp [Number.eq, is_f64]
  | Float x =>
    cases b with
    | PosInt n hn => simp [Number.eq, is_f64]
    | NegInt j hj => simp [Number.eq, is_f64]
    | Float y => simp [Number.eq, is_f64, value, F64.eq_iff_value]

end serde_json
