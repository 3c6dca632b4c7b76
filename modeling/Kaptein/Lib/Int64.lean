-- The arithmetic of `i64`: a product that leaves the range wraps, or it panics in a build
-- that checks for it, and a saturating difference stays at the bound.
import Mathlib.Algebra.Group.Int.Defs
import Mathlib.Algebra.Group.Nat.Defs
import Mathlib.Tactic.Common

namespace rust_i64

def mul_overflows (a b : Int64) : Prop :=
  a.toInt * b.toInt < -2 ^ 63 ∨ 2 ^ 63 ≤ a.toInt * b.toInt

instance (a b : Int64) : Decidable (mul_overflows a b) := inferInstanceAs (Decidable (_ ∨ _))

/-- The operator `*`, `none` for the panic. -/
def mul (overflow_checks : Bool) (a b : Int64) : Option Int64 :=
  if overflow_checks ∧ mul_overflows a b then none else some (a * b)

def saturating_sub (a b : Int64) : Int64 := Int64.ofIntClamp (a.toInt - b.toInt)

theorem mul_of_fits {a b : Int64} (h : ¬mul_overflows a b) (overflow_checks : Bool) :
    mul overflow_checks a b = some (a * b) :=
  if_neg fun hpanic => h hpanic.2

theorem mul_panics {a b : Int64} (h : mul_overflows a b) : mul true a b = none :=
  if_pos ⟨rfl, h⟩

theorem toInt_mul_of_fits {a b : Int64} (h : ¬mul_overflows a b) :
    (a * b).toInt = a.toInt * b.toInt := by
  unfold mul_overflows at h
  rw [Int64.toInt_mul]
  apply Int.bmod_eq_of_le <;> omega

theorem toInt_ofIntClamp (x : Int) :
    (Int64.ofIntClamp x).toInt = max (-2 ^ 63) (min x (2 ^ 63 - 1)) := by
  have hmin := Int64.toInt_minValue
  have hmax := Int64.toInt_maxValue
  unfold Int64.ofIntClamp
  split_ifs with hl hr
  · rw [Int64.toInt_ofIntLE]
    omega
  · omega
  · omega

theorem ofIntClamp_le {x y : Int} (h : x ≤ y) : Int64.ofIntClamp x ≤ Int64.ofIntClamp y := by
  rw [Int64.le_iff_toInt_le, toInt_ofIntClamp, toInt_ofIntClamp]
  omega

end rust_i64
