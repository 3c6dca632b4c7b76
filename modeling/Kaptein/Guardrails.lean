-- What the guardrails say of a context when some of their patterns stop to
-- compile. A pattern that does not compile matches nothing, so the lists that
-- are left match fewer names.
import Kaptein.Governance
import Mathlib.Data.List.Forall2

namespace kaptein_core.guardrails

variable (regex : Regex)

/-- Some of the patterns that compile are replaced by patterns that do not. -/
def Spoiled (patterns spoiled : List String) : Prop :=
  List.Forall₂ (fun p q => q = p ∨ ((regex p).isSome ∧ regex q = none)) patterns spoiled

/-- The same for both lists. -/
structure Guardrails.Spoiled (g spoiled : Guardrails) : Prop where
  prod : guardrails.Spoiled regex g.prod spoiled.prod
  staging : guardrails.Spoiled regex g.staging spoiled.staging

variable {regex}

/-! ## The lists -/

theorem name_matches_iff (patterns : List String) (name : String) :
    name_matches regex patterns name = true ↔
      ∃ p ∈ patterns, ∃ is_match, regex p = some is_match ∧ is_match name = true := by
  unfold name_matches
  rw [List.any_eq_true]
  constructor
  · rintro ⟨p, hp, h⟩
    cases hr : regex p with
    | none => simp [hr] at h
    | some is_match => exact ⟨p, hp, is_match, hr, by simpa [hr] using h⟩
  · rintro ⟨p, hp, is_match, hr, h⟩
    exact ⟨p, hp, by simpa [hr] using h⟩

/-- A list that lost patterns matches no new name. -/
theorem Spoiled.name_matches {patterns spoiled : List String} (h : Spoiled regex patterns spoiled)
    {name : String} (hm : guardrails.name_matches regex spoiled name = true) :
    guardrails.name_matches regex patterns name = true := by
  induction h with
  | nil => exact hm
  | cons hpq _ ih =>
    simp only [guardrails.name_matches, List.any_cons, Bool.or_eq_true] at hm ih ⊢
    rcases hm with hm | hm
    · rcases hpq with rfl | ⟨_, hq⟩
      · exact Or.inl hm
      · simp [hq] at hm
    · exact Or.inr (ih hm)

/-! ## The classes -/

theorem classify_eq_prod (g : Guardrails) (name : String) :
    g.classify regex name = .Prod ↔ name_matches regex g.prod name = true := by
  unfold Guardrails.classify
  split_ifs <;> simp_all

theorem classify_eq_staging (g : Guardrails) (name : String) :
    g.classify regex name = .Staging ↔
      name_matches regex g.prod name = false ∧ name_matches regex g.staging name = true := by
  unfold Guardrails.classify
  split_ifs <;> simp_all

theorem classify_eq_unknown (g : Guardrails) (name : String) :
    g.classify regex name = .Unknown ↔
      name_matches regex g.prod name = false ∧ name_matches regex g.staging name = false := by
  unfold Guardrails.classify
  split_ifs <;> simp_all

/-- A context that no pattern knew stays one that no pattern knows. -/
theorem unknown_stays_unknown {g spoiled : Guardrails} (h : g.Spoiled regex spoiled) (name : String)
    (hu : g.classify regex name = .Unknown) : spoiled.classify regex name = .Unknown := by
  obtain ⟨hp, hs⟩ := (classify_eq_unknown g name).mp hu
  rw [classify_eq_unknown, ← Bool.not_eq_true, ← Bool.not_eq_true]
  constructor
  · intro hm
    rw [h.prod.name_matches hm] at hp
    cases hp
  · intro hm
    rw [h.staging.name_matches hm] at hs
    cases hs

/-! ## What fails safe -/

/-- The lost patterns make no context less dangerous, and open the gate for no write. -/
def FailsSafe (regex : Regex) (g spoiled : Guardrails) (name : String) : Prop :=
  (g.classify regex name ≠ .Staging → spoiled.classify regex name ≠ .Staging) ∧
  ∀ break_glass e, gate_write (g.classify regex name) break_glass = .error e →
    gate_write (spoiled.classify regex name) break_glass = .error e

/-- Outside of staging the gate is the same for both classes. -/
theorem gate_write_of_ne_staging {a b : ContextClass} (ha : a ≠ .Staging) (hb : b ≠ .Staging)
    (break_glass : Option String) : gate_write a break_glass = gate_write b break_glass := by
  cases a <;> cases b <;> first | rfl | contradiction

theorem failsSafe_iff (g spoiled : Guardrails) (name : String) :
    FailsSafe regex g spoiled name ↔
      (spoiled.classify regex name = .Staging → g.classify regex name = .Staging) := by
  constructor
  · intro h hs
    by_contra hg
    exact h.1 hg hs
  · intro h
    have hne : g.classify regex name ≠ .Staging → spoiled.classify regex name ≠ .Staging :=
      fun hg hs => hg (h hs)
    refine ⟨hne, ?_⟩
    intro break_glass e he
    by_cases hg : g.classify regex name = .Staging
    · rw [hg] at he
      cases he
    · rw [← he]
      exact gate_write_of_ne_staging (hne hg) hg break_glass

/-- A prod pattern knew the name and none that is left knows it, but a staging
pattern that is left does. -/
structure ProdLost (regex : Regex) (g spoiled : Guardrails) (name : String) : Prop where
  was_prod : name_matches regex g.prod name = true
  lost : name_matches regex spoiled.prod name = false
  staging : name_matches regex spoiled.staging name = true

/-- Patterns that stop to compile fail safe exactly where they do not leave a prod
context to the staging patterns alone. -/
theorem classification_fails_safe_iff (regex : Regex) (g spoiled : Guardrails) (name : String)
    (h : g.Spoiled regex spoiled) :
    FailsSafe regex g spoiled name ↔ ¬ ProdLost regex g spoiled name := by
  rw [failsSafe_iff, classify_eq_staging, classify_eq_staging]
  constructor
  · rintro hkeep ⟨hwas, hlost, hstaging⟩
    have hnot := (hkeep ⟨hlost, hstaging⟩).1
    rw [hwas] at hnot
    cases hnot
  · rintro hlost ⟨hprod, hstaging⟩
    refine ⟨?_, h.staging.name_matches hstaging⟩
    rw [← Bool.not_eq_true]
    intro hwas
    exact hlost ⟨hwas, hprod, hstaging⟩

/-- The patterns of the examples, and one with an open group. -/
def sample_regex : Regex
  | "^prod-" => some fun name => "prod-".toList.isPrefixOf name.toList
  | "-prod$" => some fun name => "-prod".toList.isSuffixOf name.toList
  | ".*" => some fun _ => true
  | _ => none

theorem sample_spoiled (staging : List String) :
    Guardrails.Spoiled sample_regex { prod := ["^prod-", "-prod$"], staging }
      { prod := ["^prod-(", "-prod$"], staging } where
  prod := .cons (Or.inr ⟨rfl, rfl⟩) (.cons (Or.inl rfl) .nil)
  staging := List.forall₂_same.mpr fun _ _ => Or.inl rfl

/-- Another prod pattern still knows the name. -/
theorem a_second_prod_pattern_fails_safe :
    FailsSafe sample_regex { prod := ["^prod-", "-prod$"], staging := [".*"] }
      { prod := ["^prod-(", "-prod$"], staging := [".*"] } "prod-eu-prod" := by
  rw [classification_fails_safe_iff _ _ _ _ (sample_spoiled [".*"])]
  intro h
  exact absurd h.lost (by decide)

/-- An open group in the only prod pattern that knows the name: the context turns
to staging, and a write with no reason goes through. -/
theorem a_broken_prod_pattern_opens_the_gate :
    let g : Guardrails := { prod := ["^prod-", "-prod$"], staging := [".*"] }
    let spoiled : Guardrails := { prod := ["^prod-(", "-prod$"], staging := [".*"] }
    g.Spoiled sample_regex spoiled ∧
      g.classify sample_regex "prod-eu" = .Prod ∧
      spoiled.classify sample_regex "prod-eu" = .Staging ∧
      gate_write (g.classify sample_regex "prod-eu") none = .error write_blocked ∧
      gate_write (spoiled.classify sample_regex "prod-eu") none = .ok () ∧
      ¬ FailsSafe sample_regex g spoiled "prod-eu" := by
  intro g spoiled
  have hprod : g.classify sample_regex "prod-eu" = .Prod := by decide
  have hstaging : spoiled.classify sample_regex "prod-eu" = .Staging := by decide
  refine ⟨sample_spoiled [".*"], hprod, hstaging, ?_, ?_, ?_⟩
  · rw [hprod]
    rfl
  · rw [hstaging]
    rfl
  · intro h
    apply h.1 _ hstaging
    rw [hprod]
    simp

end kaptein_core.guardrails
