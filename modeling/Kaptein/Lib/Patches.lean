-- Partial maps under patches: a patch sets or erases one key, and a log of
-- patches is applied from the first to the last. The last patch of a key
-- decides its value.
import Mathlib.Logic.Function.Basic
import Mathlib.Data.List.Basic

namespace patches

variable {κ ν : Type*}

inductive Patch (κ ν : Type*) where
  | Set (k : κ) (v : ν)
  | Erase (k : κ)
  deriving DecidableEq

def Patch.key : Patch κ ν → κ
  | .Set k _ => k
  | .Erase k => k

/-- What the map holds at the key of the patch after it. -/
def Patch.value : Patch κ ν → Option ν
  | .Set _ v => some v
  | .Erase _ => none

variable [DecidableEq κ]

def apply (m : κ → Option ν) (p : Patch κ ν) : κ → Option ν := Function.update m p.key p.value

def applyAll (m : κ → Option ν) (log : List (Patch κ ν)) : κ → Option ν := log.foldl apply m

/-- The keys that a log names. -/
def touched (log : List (Patch κ ν)) : List κ := log.map Patch.key

@[simp] theorem applyAll_nil (m : κ → Option ν) : applyAll m [] = m := rfl

@[simp] theorem applyAll_cons (m : κ → Option ν) (p : Patch κ ν) (log : List (Patch κ ν)) :
    applyAll m (p :: log) = applyAll (apply m p) log := rfl

theorem applyAll_append (m : κ → Option ν) (a b : List (Patch κ ν)) :
    applyAll m (a ++ b) = applyAll (applyAll m a) b := by
  simp [applyAll, List.foldl_append]

@[simp] theorem apply_key (m : κ → Option ν) (p : Patch κ ν) : apply m p p.key = p.value := by
  simp [apply]

theorem apply_ne (m : κ → Option ν) (p : Patch κ ν) (k : κ) (h : k ≠ p.key) :
    apply m p k = m k := by
  simp [apply, h]

/-- A log keeps the value of every key that it does not name. -/
theorem applyAll_untouched (m : κ → Option ν) (log : List (Patch κ ν)) (k : κ)
    (h : k ∉ touched log) : applyAll m log k = m k := by
  induction log generalizing m with
  | nil => rfl
  | cons p log ih =>
    simp only [touched, List.map_cons, List.mem_cons, not_or] at h
    rw [applyAll_cons, ih _ h.2, apply_ne m p k h.1]

/-- The value of a key that a log names does not depend on the map before it. -/
theorem applyAll_touched (m n : κ → Option ν) (log : List (Patch κ ν)) (k : κ)
    (h : k ∈ touched log) : applyAll m log k = applyAll n log k := by
  induction log generalizing m n with
  | nil => simp [touched] at h
  | cons p log ih =>
    rw [applyAll_cons, applyAll_cons]
    by_cases hk : k ∈ touched log
    · exact ih _ _ hk
    · simp only [touched, List.map_cons, List.mem_cons] at h
      rcases h with h | h
      · subst h
        rw [applyAll_untouched _ _ _ hk, applyAll_untouched _ _ _ hk, apply_key, apply_key]
      · exact absurd h hk

/-- A log that was applied up to some point may be applied again from its start. -/
theorem applyAll_overlap (m : κ → Option ν) (a b : List (Patch κ ν)) :
    applyAll (applyAll m a) (a ++ b) = applyAll m (a ++ b) := by
  funext k
  by_cases hk : k ∈ touched (a ++ b)
  · exact applyAll_touched _ _ _ k hk
  · have ha : k ∉ touched a := by
      intro h
      apply hk
      rw [touched, List.map_append]
      exact List.mem_append_left _ h
    rw [applyAll_untouched _ _ _ hk, applyAll_untouched _ _ _ hk, applyAll_untouched _ _ _ ha]

/-- A value of the map comes from a patch, or was there before. -/
theorem applyAll_eq_some (m : κ → Option ν) (log : List (Patch κ ν)) {k : κ} {v : ν}
    (h : applyAll m log k = some v) : m k = some v ∨ .Set k v ∈ log := by
  induction log generalizing m with
  | nil => exact .inl h
  | cons p log ih =>
    rcases ih _ h with hm | hlog
    · by_cases hk : k = p.key
      · subst hk
        rw [apply_key] at hm
        cases p with
        | Set k w =>
          cases hm
          exact .inr List.mem_cons_self
        | Erase k => cases hm
      · rw [apply_ne m p k hk] at hm
        exact .inl hm
    · exact .inr (List.mem_cons_of_mem _ hlog)

/-- A log after a lost log gives the map of both logs exactly when the lost
log left every key alone that the later log does not name. -/
theorem applyAll_lost_prefix (m : κ → Option ν) (lost kept : List (Patch κ ν)) :
    applyAll m kept = applyAll m (lost ++ kept) ↔
      ∀ k, k ∉ touched kept → applyAll m lost k = m k := by
  rw [applyAll_append]
  constructor
  · intro h k hk
    have hat := congrFun h k
    rw [applyAll_untouched _ _ _ hk, applyAll_untouched _ _ _ hk] at hat
    exact hat.symm
  · intro h
    funext k
    by_cases hk : k ∈ touched kept
    · exact applyAll_touched _ _ _ _ hk
    · rw [applyAll_untouched _ _ _ hk, applyAll_untouched _ _ _ hk, h k hk]

/-! ## Logs that only set -/

/-- The map of a list of pairs with distinct keys holds exactly the pairs. -/
theorem applyAll_sets_eq_some (pairs : List (κ × ν)) (h : (pairs.map Prod.fst).Nodup) (k : κ)
    (v : ν) :
    applyAll (fun _ => none) (pairs.map fun p => .Set p.1 p.2) k = some v ↔ (k, v) ∈ pairs := by
  suffices hgen : ∀ m : κ → Option ν, (∀ p ∈ pairs, m p.1 = none) →
      (applyAll m (pairs.map fun p => .Set p.1 p.2) k = some v ↔ m k = some v ∨ (k, v) ∈ pairs) by
    simpa using hgen (fun _ => none) (fun _ _ => rfl)
  induction pairs with
  | nil => simp
  | cons p pairs ih =>
    intro m hm
    obtain ⟨hp, hrest⟩ := List.nodup_cons.mp h
    have hnew : ∀ q ∈ pairs, apply m (.Set p.1 p.2) q.1 = none := by
      intro q hq
      have hne : q.1 ≠ p.1 := by
        intro heq
        exact hp (List.mem_map.mpr ⟨q, hq, heq⟩)
      rw [apply_ne _ _ _ hne]
      exact hm q (List.mem_cons_of_mem _ hq)
    rw [List.map_cons, applyAll_cons, ih hrest _ hnew, List.mem_cons]
    by_cases hk : k = p.1
    · subst hk
      have hat : apply m (.Set p.1 p.2) p.1 = some p.2 := apply_key m (.Set p.1 p.2)
      rw [hat, hm p List.mem_cons_self]
      constructor
      · rintro (hv | hv)
        · exact Or.inr (Or.inl (by rw [← Option.some.inj hv]))
        · exact Or.inr (Or.inr hv)
      · rintro (hv | hv | hv)
        · cases hv
        · exact Or.inl (by rw [← hv])
        · exact Or.inr hv
    · rw [apply_ne _ _ _ hk]
      constructor
      · rintro (hv | hv)
        · exact Or.inl hv
        · exact Or.inr (Or.inr hv)
      · rintro (hv | hv | hv)
        · exact Or.inl hv
        · exact absurd (by rw [← hv]) hk
        · exact Or.inr hv

/-- A log that erases nothing keeps every key. -/
theorem applyAll_keeps (m : κ → Option ν) (log : List (Patch κ ν))
    (hset : ∀ p ∈ log, p.value ≠ none) (k : κ) (h : m k ≠ none) : applyAll m log k ≠ none := by
  induction log generalizing m with
  | nil => exact h
  | cons p log ih =>
    apply ih _ fun q hq => hset q (List.mem_cons_of_mem _ hq)
    by_cases hk : k = p.key
    · subst hk
      rw [apply_key]
      exact hset p List.mem_cons_self
    · rw [apply_ne _ _ _ hk]
      exact h

/-! ## Logs over two kinds of values -/

def Patch.map {μ : Type*} (f : ν → μ) : Patch κ ν → Patch κ μ
  | .Set k v => .Set k (f v)
  | .Erase k => .Erase k

/-- Values mapped after a log are the values of the mapped log. -/
theorem applyAll_map {μ : Type*} (f : ν → μ) (m : κ → Option ν) (log : List (Patch κ ν)) :
    applyAll (fun k => (m k).map f) (log.map (Patch.map f)) =
      fun k => (applyAll m log k).map f := by
  induction log generalizing m with
  | nil => rfl
  | cons p log ih =>
    rw [List.map_cons, applyAll_cons, applyAll_cons, ← ih]
    congr 1
    funext k
    cases p with
    | Set k' v =>
      by_cases hk : k = k'
      · subst hk
        simp [apply, Patch.map, Patch.key, Patch.value]
      · simp [apply, Patch.map, Patch.key, hk]
    | Erase k' =>
      by_cases hk : k = k'
      · subst hk
        simp [apply, Patch.map, Patch.key, Patch.value]
      · simp [apply, Patch.map, Patch.key, hk]

end patches
