-- The permissions of the current user (`auth.rs`), read from the rules that the
-- server lists, and the rules by which the server itself decides a request.
import Mathlib.Data.List.Basic

namespace kaptein_core.auth

structure ResourceRule where
  verbs : List String
  api_groups : Option (List String)
  resources : Option (List String)
  resource_names : Option (List String)
  deriving DecidableEq

structure SubjectRulesReviewStatus where
  resource_rules : List ResourceRule := []
  deriving DecidableEq

structure Permission where
  verb : String
  resource : String
  group : String
  namespace_ : String
  allowed : Bool
  deriving DecidableEq

structure Preflight where
  resource : String
  group : String
  namespace_ : String
  actions : List (String × Bool)
  deriving DecidableEq

/-- The answer of the server to a rules review for a namespace. -/
abbrev Review := String → Except String (Option SubjectRulesReviewStatus)

def subject_rules (review : Review) (namespace_ : String) :
    Except String SubjectRulesReviewStatus := do
  let status ← review namespace_
  pure (status.getD {})

/-- The closure of both checks: a rule without a list of groups or of resources
grants nothing. -/
def rule_allows (verb resource group : String) (rule : ResourceRule) : Bool :=
  let group_ok := rule.api_groups.any fun groups => groups.any fun g => g == "*" || g == group
  let resource_ok := rule.resources.any fun resources =>
    resources.any fun r => r == "*" || r == resource || r == resource ++ "/*"
  let verb_ok := rule.verbs.any fun v => v == "*" || v == verb
  group_ok && resource_ok && verb_ok

def can (review : Review) (verb resource group namespace_ : String) :
    Except String Permission := do
  let status ← subject_rules review namespace_
  let allowed := status.resource_rules.any (rule_allows verb resource group)
  pure { verb, resource, group, namespace_, allowed }

def VERBS : List String :=
  ["get", "list", "watch", "create", "update", "patch", "delete", "deletecollection"]

/-- The rules are fetched once for all verbs. -/
def preflight (review : Review) (resource group namespace_ : String) :
    Except String Preflight := do
  let status ← subject_rules review namespace_
  let actions := VERBS.map fun verb =>
    (verb, status.resource_rules.any (rule_allows verb resource group))
  pure { resource, group, namespace_, actions }

/-! ## The rules of the server -/

/-- A resource of a request: one of a kind, or a part of one. -/
structure Resource where
  base : String
  sub : Option String
  deriving DecidableEq

def Resource.text (r : Resource) : String :=
  match r.sub with
  | none => r.base
  | some sub => r.base ++ "/" ++ sub

def names_verb (rule : ResourceRule) (verb : String) : Prop :=
  verb ∈ rule.verbs ∨ "*" ∈ rule.verbs

def names_group (rule : ResourceRule) (group : String) : Prop :=
  ∃ groups, rule.api_groups = some groups ∧ (group ∈ groups ∨ "*" ∈ groups)

/-- The resource itself is named, or every resource. -/
def names_resource (rule : ResourceRule) (r : Resource) : Prop :=
  ∃ resources, rule.resources = some resources ∧ (r.text ∈ resources ∨ "*" ∈ resources)

/-- The part is named for every kind, as in `*/log`. -/
def names_part (rule : ResourceRule) (r : Resource) : Prop :=
  ∃ resources sub, rule.resources = some resources ∧ r.sub = some sub ∧ "*/" ++ sub ∈ resources

/-- All parts of the resource are named, as in `pods/*`. -/
def names_all_parts (rule : ResourceRule) (r : Resource) : Prop :=
  ∃ resources, rule.resources = some resources ∧ r.text ++ "/*" ∈ resources

/-- The rule is for objects of any name. -/
def for_any_name (rule : ResourceRule) : Prop := rule.resource_names.getD [] = []

/-- The server grants the request for an object of any name. -/
def Grants (verb group : String) (r : Resource) (rule : ResourceRule) : Prop :=
  names_verb rule verb ∧ names_group rule group ∧ (names_resource rule r ∨ names_part rule r) ∧
    for_any_name rule

/-! ## Where the check and the server differ -/

/-- The rule grants the request in the check and at the server. -/
def Plain (verb group : String) (r : Resource) (rule : ResourceRule) : Prop :=
  names_verb rule verb ∧ names_group rule group ∧ names_resource rule r ∧ for_any_name rule

/-- The check lets the request through by the rule, though it is for some names
only, or names only parts of the resource. -/
def OverGrants (verb group : String) (r : Resource) (rule : ResourceRule) : Prop :=
  names_verb rule verb ∧ names_group rule group ∧
    (names_resource rule r ∧ ¬ for_any_name rule ∨ names_all_parts rule r)

/-- The server grants the request by a part named for every kind, which the check
does not look for. -/
def UnderGrants (verb group : String) (r : Resource) (rule : ResourceRule) : Prop :=
  names_verb rule verb ∧ names_group rule group ∧ names_part rule r ∧ for_any_name rule

/-- The answers of the check for a review of the rules are those of the server. -/
def Agrees (rules : List ResourceRule) (verb group : String) (r : Resource) : Prop :=
  ∀ (review : Review) (ns : String), review ns = .ok (some { resource_rules := rules }) →
    (∃ p, can review verb r.text group ns = .ok p ∧
      (p.allowed = true ↔ ∃ rule ∈ rules, Grants verb group r rule)) ∧
    ∃ p, preflight review r.text group ns = .ok p ∧
      ∀ allowed, (verb, allowed) ∈ p.actions →
        (allowed = true ↔ ∃ rule ∈ rules, Grants verb group r rule)

theorem any_names_iff (names : List String) (x : String) :
    (names.any fun v => v == "*" || v == x) = true ↔ x ∈ names ∨ "*" ∈ names := by
  simp only [List.any_eq_true, Bool.or_eq_true, beq_iff_eq]
  constructor
  · rintro ⟨v, hv, rfl | rfl⟩
    · exact Or.inr hv
    · exact Or.inl hv
  · rintro (h | h)
    · exact ⟨x, h, Or.inr rfl⟩
    · exact ⟨"*", h, Or.inl rfl⟩

theorem rule_allows_iff (verb group : String) (r : Resource) (rule : ResourceRule) :
    rule_allows verb r.text group rule = true ↔
      names_verb rule verb ∧ names_group rule group ∧
        (names_resource rule r ∨ names_all_parts rule r) := by
  have hgroup : (rule.api_groups.any fun groups => groups.any fun g => g == "*" || g == group) =
      true ↔ names_group rule group := by
    unfold names_group
    cases rule.api_groups with
    | none => simp
    | some groups => simp only [Option.any_some, any_names_iff, Option.some.injEq, exists_eq_left']
  have hresource : (rule.resources.any fun resources => resources.any fun s =>
      s == "*" || s == r.text || s == r.text ++ "/*") = true ↔
        names_resource rule r ∨ names_all_parts rule r := by
    unfold names_resource names_all_parts
    cases rule.resources with
    | none => simp
    | some resources =>
      have hsplit : (resources.any fun s => s == "*" || s == r.text || s == r.text ++ "/*") =
          true ↔ (resources.any fun s => s == "*" || s == r.text) = true ∨
            r.text ++ "/*" ∈ resources := by
        simp only [List.any_eq_true, Bool.or_eq_true, beq_iff_eq]
        constructor
        · rintro ⟨s, hs, h | rfl⟩
          · exact Or.inl ⟨s, hs, h⟩
          · exact Or.inr hs
        · rintro (⟨s, hs, h⟩ | hs)
          · exact ⟨s, hs, Or.inl h⟩
          · exact ⟨_, hs, Or.inr rfl⟩
      simp only [Option.any_some, hsplit, any_names_iff, Option.some.injEq, exists_eq_left']
  unfold rule_allows names_verb
  rw [Bool.and_eq_true, Bool.and_eq_true, hgroup, hresource, any_names_iff]
  tauto

/-- The check allows what a rule grants plainly or grants too much. -/
theorem checked_iff (rules : List ResourceRule) (verb group : String) (r : Resource) :
    rules.any (rule_allows verb r.text group) = true ↔
      (∃ rule ∈ rules, Plain verb group r rule) ∨ ∃ rule ∈ rules, OverGrants verb group r rule := by
  simp only [List.any_eq_true, rule_allows_iff]
  constructor
  · rintro ⟨rule, hrule, hverb, hgroup, hres | hall⟩
    · by_cases hname : for_any_name rule
      · exact Or.inl ⟨rule, hrule, hverb, hgroup, hres, hname⟩
      · exact Or.inr ⟨rule, hrule, hverb, hgroup, Or.inl ⟨hres, hname⟩⟩
    · exact Or.inr ⟨rule, hrule, hverb, hgroup, Or.inr hall⟩
  · rintro (⟨rule, hrule, hverb, hgroup, hres, _⟩ | ⟨rule, hrule, hverb, hgroup, ⟨hres, _⟩ | hall⟩)
    · exact ⟨rule, hrule, hverb, hgroup, Or.inl hres⟩
    · exact ⟨rule, hrule, hverb, hgroup, Or.inl hres⟩
    · exact ⟨rule, hrule, hverb, hgroup, Or.inr hall⟩

/-- The server allows what a rule grants plainly, or by a part of every kind. -/
theorem granted_iff (rules : List ResourceRule) (verb group : String) (r : Resource) :
    (∃ rule ∈ rules, Grants verb group r rule) ↔
      (∃ rule ∈ rules, Plain verb group r rule) ∨
        ∃ rule ∈ rules, UnderGrants verb group r rule := by
  constructor
  · rintro ⟨rule, hrule, hverb, hgroup, hres | hpart, hname⟩
    · exact Or.inl ⟨rule, hrule, hverb, hgroup, hres, hname⟩
    · exact Or.inr ⟨rule, hrule, hverb, hgroup, hpart, hname⟩
  · rintro (⟨rule, hrule, hverb, hgroup, hres, hname⟩ | ⟨rule, hrule, hverb, hgroup, hpart, hname⟩)
    · exact ⟨rule, hrule, hverb, hgroup, Or.inl hres, hname⟩
    · exact ⟨rule, hrule, hverb, hgroup, Or.inr hpart, hname⟩

/-- Both checks answer with the rules of the review. -/
theorem agrees_iff (rules : List ResourceRule) (verb group : String) (r : Resource) :
    Agrees rules verb group r ↔
      (rules.any (rule_allows verb r.text group) = true ↔
        ∃ rule ∈ rules, Grants verb group r rule) := by
  constructor
  · intro h
    obtain ⟨⟨p, hp, hallowed⟩, _⟩ := h (fun _ => .ok (some { resource_rules := rules })) "" rfl
    cases hp
    exact hallowed
  · intro h review ns hreview
    have hrules : subject_rules review ns = .ok { resource_rules := rules } := by
      unfold subject_rules
      rw [hreview]
      rfl
    unfold can preflight
    rw [hrules]
    refine ⟨⟨_, rfl, h⟩, _, rfl, ?_⟩
    intro allowed hmem
    obtain ⟨v, _, hv⟩ := List.mem_map.mp hmem
    cases hv
    exact h

/-- The check agrees with the server exactly where a rule grants the request
plainly, or a rule that grants too much meets one that is overlooked. -/
theorem check_agrees_with_the_server_iff (rules : List ResourceRule) (verb group : String)
    (r : Resource) :
    Agrees rules verb group r ↔
      (∃ rule ∈ rules, Plain verb group r rule) ∨
        ((∃ rule ∈ rules, OverGrants verb group r rule) ↔
          ∃ rule ∈ rules, UnderGrants verb group r rule) := by
  rw [agrees_iff, checked_iff, granted_iff]
  by_cases hplain : ∃ rule ∈ rules, Plain verb group r rule
  · simp only [hplain, true_or]
  · simp only [hplain, false_or]

/-- A rule for the parts of pods lets the check read the pods themselves. -/
theorem a_grant_on_parts_allows_the_pods :
    let rule : ResourceRule := {
      verbs := ["get"], api_groups := some [""], resources := some ["pods/*"]
      resource_names := none }
    can (fun _ => .ok (some { resource_rules := [rule] })) "get" "pods" "" "default" =
        .ok { verb := "get", resource := "pods", group := "", namespace_ := "default",
              allowed := true } ∧
      ¬ Agrees [rule] "get" "" { base := "pods", sub := none } := by
  intro rule
  refine ⟨by decide, ?_⟩
  rw [agrees_iff]
  intro h
  obtain ⟨rule', hrule', _, _, hres | hpart, _⟩ := h.mp (by decide)
  · rw [List.mem_singleton] at hrule'
    subst hrule'
    obtain ⟨resources, hresources, hmem⟩ := hres
    cases hresources
    revert hmem
    decide
  · obtain ⟨_, _, _, hsub, _⟩ := hpart
    cases hsub

end kaptein_core.auth
