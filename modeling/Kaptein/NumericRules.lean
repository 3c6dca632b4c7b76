-- The comparisons of a lens (`lens.rs`) beside the order of the numbers. The
-- status rules and the health checks share one predicate.
import Kaptein.Lib.Double
import Kaptein.ViewDef

open serde_json kaptein_viewmodel.lens

namespace kaptein_viewmodel.viewdef

/-! ## Health checks -/

structure HealthFinding where
  id : String
  label_key : String
  level : StatusLevel
  deriving DecidableEq

/-- A check that does not hold is a finding. -/
def evaluate_health (vd : ViewDefinition) (resource : Redacted) : List HealthFinding :=
  (vd.health.filter fun check =>
      !predicate_holds check.field check.op check.value resource).map fun check =>
    { id := check.id, label_key := check.label_key, level := check.level }

/-! ## What a comparison decides -/

/-- The rule decides the status of every lens that has it first. -/
def StatusHolds (resource : Redacted) (field : String) (value : Value) (op : RuleOp) : Prop :=
  ∀ (vd : lens.ViewDefinition) (level : StatusLevel),
    evaluate_status { vd with status := ⟨field, op, value, level⟩ :: vd.status } resource =
      some level

/-- The check adds no finding to any lens. -/
def HealthHolds (resource : Redacted) (field : String) (value : Value) (op : RuleOp) : Prop :=
  ∀ (vd : ViewDefinition) (id label_key : String) (level : StatusLevel),
    evaluate_health { vd with health := ⟨id, label_key, field, op, value, level⟩ :: vd.health }
        resource =
      evaluate_health vd resource

theorem statusHolds_iff (resource : Redacted) (field : String) (value : Value) (op : RuleOp) :
    StatusHolds resource field value op ↔ predicate_holds field op value resource = true := by
  constructor
  · intro h
    by_contra hno
    have hnone := h {} .Ok
    simp [evaluate_status, rule_matches, hno] at hnone
  · intro h vd level
    simp [evaluate_status, rule_matches, h]

theorem healthHolds_iff (resource : Redacted) (field : String) (value : Value) (op : RuleOp) :
    HealthHolds resource field value op ↔ predicate_holds field op value resource = true := by
  constructor
  · intro h
    by_contra hno
    have hlen := congrArg List.length (h ⟨"", 0, ⟨"", "", ""⟩, [], [], [], [], []⟩ "" "" .Ok)
    simp [evaluate_health, hno] at hlen
  · intro h vd id label_key level
    simp [evaluate_health, h]

/-! ## The order of the numbers -/

/-- The comparisons are those of two rational numbers. -/
structure NumericOrder (holds : RuleOp → Prop) (a b : ℚ) : Prop where
  one : holds .Lt ∨ holds .Eq ∨ holds .Gt
  lt_eq : ¬(holds .Lt ∧ holds .Eq)
  lt_gt : ¬(holds .Lt ∧ holds .Gt)
  eq_gt : ¬(holds .Eq ∧ holds .Gt)
  gte : holds .Gte ↔ holds .Gt ∨ holds .Eq
  lte : holds .Lte ↔ holds .Lt ∨ holds .Eq
  ne : holds .Ne ↔ ¬holds .Eq
  eq : holds .Eq ↔ a = b

def fits_i64 (n : Number) : Prop := n.as_i64.isSome = true

/-- The comparisons of a lens: the order of the integers that fit an `i64`, and no
order on any other number. -/
structure I64Order (holds : RuleOp → Prop) (a b : Number) : Prop where
  order : fits_i64 a → fits_i64 b → NumericOrder holds a.value b.value
  outside : ¬(fits_i64 a ∧ fits_i64 b) →
    ¬holds .Gt ∧ ¬holds .Gte ∧ ¬holds .Lt ∧ ¬holds .Lte
  ne : holds .Ne ↔ ¬holds .Eq
  eq : holds .Eq ↔ a.is_f64 = b.is_f64 ∧ a.value = b.value

section

variable {resource : Redacted} {field : String} {a b : Number}

/-- The value that each comparison of two numbers reads. -/
theorem predicate_holds_number (hread : resolve_field resource.as_value field = some (.number a))
    (op : RuleOp) : predicate_holds field op (.number b) resource =
      match op with
      | .Eq => a.eq b
      | .Ne => !a.eq b
      | .Gt => compare_i64 (.number a) (.number b) fun x y => decide (y < x)
      | .Gte => compare_i64 (.number a) (.number b) fun x y => decide (y ≤ x)
      | .Lt => compare_i64 (.number a) (.number b) fun x y => decide (x < y)
      | .Lte => compare_i64 (.number a) (.number b) fun x y => decide (x ≤ y)
      | .Contains => false := by
  unfold predicate_holds
  rw [hread]
  cases op <;> rfl

theorem compare_i64_outside (h : ¬(fits_i64 a ∧ fits_i64 b)) (holds : Int → Int → Bool) :
    compare_i64 (.number a) (.number b) holds = false := by
  unfold compare_i64
  cases ha : (Value.number a).as_i64 with
  | none => rfl
  | some i =>
    cases hb : (Value.number b).as_i64 with
    | none => rfl
    | some j =>
      exact absurd ⟨Option.isSome_iff_exists.mpr ⟨i, ha⟩, Option.isSome_iff_exists.mpr ⟨j, hb⟩⟩ h

theorem predicate_i64_order (hread : resolve_field resource.as_value field = some (.number a)) :
    I64Order (fun op => predicate_holds field op (.number b) resource = true) a b where
  order := by
    intro hafits hbfits
    obtain ⟨i, ha⟩ := Option.isSome_iff_exists.mp hafits
    obtain ⟨j, hb⟩ := Option.isSome_iff_exists.mp hbfits
    have heq : a.eq b = true ↔ i = j := by
      rw [Number.eq_iff, Number.not_f64_of_as_i64 ha, Number.not_f64_of_as_i64 hb,
        Number.value_of_as_i64 ha, Number.value_of_as_i64 hb, Int.cast_inj]
      simp
    have hcompare : ∀ holds, compare_i64 (.number a) (.number b) holds = holds i j := by
      intro holds
      simp [compare_i64, Value.as_i64, ha, hb]
    have hvalue : a.value = b.value ↔ i = j := by
      rw [Number.value_of_as_i64 ha, Number.value_of_as_i64 hb, Int.cast_inj]
    constructor <;>
      simp only [predicate_holds_number hread, hcompare, heq, hvalue, decide_eq_true_eq,
        Bool.not_eq_true', ← Bool.not_eq_true] <;>
      omega
  outside := by
    intro h
    simp only [predicate_holds_number hread, compare_i64_outside h]
    simp
  ne := by
    simp only [predicate_holds_number hread]
    simp
  eq := by
    simp only [predicate_holds_number hread]
    exact Number.eq_iff a b

/-- For every number that is read and every number of a rule, a status rule and a health
check follow the numeric order as far as both numbers fit an `i64`. -/
theorem numeric_rules_follow_i64_order
    (hread : resolve_field resource.as_value field = some (.number a)) :
    I64Order (StatusHolds resource field (.number b)) a b ∧
      I64Order (HealthHolds resource field (.number b)) a b := by
  have horder := predicate_i64_order (b := b) hread
  have hstatus : StatusHolds resource field (.number b) =
      fun op => predicate_holds field op (.number b) resource = true :=
    funext fun op => propext (statusHolds_iff resource field (.number b) op)
  have hhealth : HealthHolds resource field (.number b) =
      fun op => predicate_holds field op (.number b) resource = true :=
    funext fun op => propext (healthHolds_iff resource field (.number b) op)
  rw [hstatus, hhealth]
  exact ⟨horder, horder⟩

end

/-- A count that is larger than every `i64`. -/
def beyond_i64 : Redacted := ⟨.object [("count", .number (.PosInt (2 ^ 63) (by decide)))]⟩

theorem a_large_count_is_in_no_order :
    ∃ a : Number, resolve_field beyond_i64.as_value "count" = some (.number a) ∧
      ¬NumericOrder (StatusHolds beyond_i64 "count" (.number (.PosInt 1 (by decide)))) a.value
        (Number.PosInt 1 (by decide)).value ∧
      ¬NumericOrder (HealthHolds beyond_i64 "count" (.number (.PosInt 1 (by decide)))) a.value
        (Number.PosInt 1 (by decide)).value := by
  have hpredicate : ∀ op, predicate_holds "count" op (.number (.PosInt 1 (by decide))) beyond_i64 =
      decide (op = .Ne) := by
    intro op
    cases op <;> decide +kernel
  refine ⟨.PosInt (2 ^ 63) (by decide), rfl, ?_, ?_⟩
  · intro h
    have hone := h.one
    simp [statusHolds_iff, hpredicate] at hone
  · intro h
    have hone := h.one
    simp [healthHolds_iff, hpredicate] at hone

/-- The number of replicas of a workload. -/
def three_replicas : Redacted := ⟨.object [("replicas", .number (.PosInt 3 (by decide)))]⟩

theorem three_replicas_are_compared :
    I64Order (StatusHolds three_replicas "replicas" (.number (.PosInt 1 (by decide))))
        (.PosInt 3 (by decide)) (.PosInt 1 (by decide)) ∧
      I64Order (HealthHolds three_replicas "replicas" (.number (.PosInt 1 (by decide))))
        (.PosInt 3 (by decide)) (.PosInt 1 (by decide)) :=
  numeric_rules_follow_i64_order rfl

end kaptein_viewmodel.viewdef
