-- The status rules of a lens (`lens.rs`) over any `status.conditions`. A rule
-- over the conditions is meant to read the first entry of its type. The
-- search asks whether any entry has the type and the status.
import Kaptein.Lens
import Kaptein.Lib.FirstByKey
import Mathlib.Data.List.Find

open serde_json rust_slice

namespace kaptein_viewmodel.lens

/-! ## The rule as it is documented -/

/-- The entries of `status.conditions`. -/
def status_conditions (resource : Redacted) : List Value :=
  (((resource.as_value.get "status").bind fun s => s.get "conditions").bind Value.as_array).getD []

def has_type (condition_type : String) (cond : Value) : Bool :=
  (cond.get "type").bind Value.as_str == some condition_type

def has_status (status : String) (cond : Value) : Bool :=
  (cond.get "status").bind Value.as_str == some status

/-- The first condition of the type decides, as `ConditionRule` says. -/
def ConditionRule.fires (rule : ConditionRule) (resource : Redacted) : Bool :=
  ((status_conditions resource).find? (has_type rule.condition_type)).any (has_status rule.status)

inductive Rule where
  | scalar (rule : StatusRule)
  | condition (rule : ConditionRule)

def Rule.level : Rule → StatusLevel
  | .scalar rule => rule.level
  | .condition rule => rule.level

def Rule.fires : Rule → Redacted → Bool
  | .scalar rule, resource => rule_matches rule resource
  | .condition rule, resource => rule.fires resource

/-- The rules of a lens in the order of their evaluation. -/
def ViewDefinition.rules (vd : ViewDefinition) : List Rule :=
  vd.status.map .scalar ++ vd.conditions.map .condition

/-- The status of the resource is that of the first rule that fires, and each
rule over the conditions reads the first entry of its type. -/
structure FirstMatch (vd : ViewDefinition) (resource : Redacted) : Prop where
  reads_first : ∀ rule ∈ vd.conditions,
    condition_matches rule resource = true ↔ rule.fires resource = true
  first_rule : evaluate_status vd resource =
    (vd.rules.find? fun rule => rule.fires resource).map Rule.level
  exclusive : ∀ r₁ ∈ vd.conditions, ∀ r₂ ∈ vd.conditions, r₁.condition_type = r₂.condition_type →
    r₁.status ≠ r₂.status →
    ¬(condition_matches r₁ resource = true ∧ condition_matches r₂ resource = true)

/-! ## What the search decides -/

theorem condition_matches_eq (rule : ConditionRule) (resource : Redacted) :
    condition_matches rule resource = (status_conditions resource).any fun cond =>
      has_type rule.condition_type cond && has_status rule.status cond := by
  unfold condition_matches status_conditions
  cases (resource.as_value.get "status").bind fun s => s.get "conditions" with
  | none => simp
  | some conditions =>
    cases hlist : conditions.as_array with
    | none => simp [hlist]
    | some list => simp [hlist, has_type, has_status]

/-- An entry of the rule's type and status stands behind the first entry of the
type, and that one has another status. -/
def ConditionRule.Shadowed (rule : ConditionRule) (resource : Redacted) : Prop :=
  rust_slice.Shadowed (has_type rule.condition_type) (has_status rule.status)
    (status_conditions resource)

theorem condition_matches_iff_fires (rule : ConditionRule) (resource : Redacted) :
    (condition_matches rule resource = true ↔ rule.fires resource = true) ↔
      ¬rule.Shadowed resource := by
  rw [condition_matches_eq]
  exact any_and_iff_find_any _ _ _

theorem fires_exclusive {r₁ r₂ : ConditionRule} {resource : Redacted}
    (htype : r₁.condition_type = r₂.condition_type) (hstatus : r₁.status ≠ r₂.status) :
    ¬(r₁.fires resource = true ∧ r₂.fires resource = true) := by
  unfold ConditionRule.fires
  rw [htype]
  cases (status_conditions resource).find? (has_type r₂.condition_type) with
  | none => simp
  | some cond =>
    simp only [Option.any_some, has_status, beq_iff_eq]
    rintro ⟨h₁, h₂⟩
    rw [h₁, Option.some.injEq] at h₂
    exact hstatus h₂

/-- Two lists of rules in turn: the first hit of the one, or that of the other. -/
theorem evaluate_status_of_reads_first {vd : ViewDefinition} {resource : Redacted}
    (h : ∀ rule ∈ vd.conditions,
      condition_matches rule resource = true ↔ rule.fires resource = true) :
    evaluate_status vd resource =
      (vd.rules.find? fun rule => rule.fires resource).map Rule.level := by
  have hconditions : (vd.conditions.find? fun rule => condition_matches rule resource) =
      vd.conditions.find? fun rule => rule.fires resource := by
    apply List.find?_congr
    intro rule hrule
    rw [Bool.eq_iff_iff]
    exact h rule hrule
  unfold evaluate_status ViewDefinition.rules
  rw [hconditions, List.find?_append, List.find?_map, List.find?_map, Option.map_or,
    Option.map_map, Option.map_map]
  rfl

theorem first_match_of_not_shadowed {vd : ViewDefinition} {resource : Redacted}
    (h : ∀ rule ∈ vd.conditions, ¬rule.Shadowed resource) : FirstMatch vd resource := by
  have hreads : ∀ rule ∈ vd.conditions,
      condition_matches rule resource = true ↔ rule.fires resource = true := by
    intro rule hrule
    exact (condition_matches_iff_fires rule resource).mpr (h rule hrule)
  refine ⟨hreads, evaluate_status_of_reads_first hreads, ?_⟩
  intro r₁ h₁ r₂ h₂ htype hstatus
  rw [hreads r₁ h₁, hreads r₂ h₂]
  exact fires_exclusive htype hstatus

/-- A resource that reports each type once is read as the rules say. -/
theorem first_match_of_unique_types (vd : ViewDefinition) (resource : Redacted)
    (h : (status_conditions resource).Pairwise fun a b =>
      ∀ t, ¬(has_type t a = true ∧ has_type t b = true)) :
    FirstMatch vd resource := by
  apply first_match_of_not_shadowed
  intro rule _
  apply not_shadowed_of_pairwise
  exact h.imp fun hab => hab rule.condition_type

/-- The rules are first-match exactly where no rule over the conditions is shadowed. -/
theorem first_match_iff (vd : ViewDefinition) (resource : Redacted) :
    FirstMatch vd resource ↔ ∀ rule ∈ vd.conditions, ¬rule.Shadowed resource := by
  constructor
  · intro h rule hrule
    rw [← condition_matches_iff_fires]
    exact h.reads_first rule hrule
  · exact first_match_of_not_shadowed

def ready_lens : ViewDefinition :=
  { conditions := [⟨"Ready", "True", .Ok⟩, ⟨"Ready", "False", .Error⟩] }

def ready_condition (status : String) : Value :=
  .object [("type", .string "Ready"), ("status", .string status)]

/-- A resource that reports `Ready` twice, first `False` and then `True`. -/
def twice_ready : Redacted :=
  ⟨.object [("status", .object [("conditions",
    .array [ready_condition "False", ready_condition "True"])])]⟩

/-- Both rules match, and the resource counts as ready. -/
theorem twice_ready_not_first_match : ¬∀ vd resource, FirstMatch vd resource := by
  intro h
  have hfirst := (h ready_lens twice_ready).first_rule
  have hcode : evaluate_status ready_lens twice_ready = some .Ok := by decide
  have hmeant : ((ready_lens.rules.find? fun rule => rule.fires twice_ready).map Rule.level) =
      some .Error := by decide
  rw [hcode, hmeant] at hfirst
  exact absurd hfirst (by decide)

end kaptein_viewmodel.lens
