-- A walk through a list, from each element to the next one and from the last one to
-- the first one, where an element is found in the list by its key.
import Mathlib.Data.List.Rotate
import Mathlib.Logic.Function.Iterate

namespace tours

variable {α β : Type*} (next : α → α) (key : α → β)

/-- The walk from an element visits every element of the list once, and comes back. -/
structure Tours (xs : List α) (x : α) : Prop where
  visits : ((List.range xs.length).map fun j => next^[j] x).Perm xs
  returns : next^[xs.length] x = x

variable {next key}

/-! ## Keys that find their element -/

theorem findIdx?_of_key [DecidableEq β] {xs : List α} (hkeys : (xs.map key).Nodup) {i : Nat} {x : α}
    (hx : xs[i]? = some x) : xs.findIdx? (fun y => key y = key x) = some i := by
  obtain ⟨hi, hget⟩ := List.getElem?_eq_some_iff.mp hx
  rw [List.findIdx?_eq_some_iff_getElem]
  refine ⟨hi, by simp [hget], ?_⟩
  intro j hj heq
  have hsame : (xs.map key)[j]? = (xs.map key)[i]? := by
    rw [List.getElem?_map, List.getElem?_map, hx, List.getElem?_eq_getElem (by omega)]
    simpa using heq
  have hji := (List.getElem?_inj (by simp; omega) hkeys).mp hsame
  omega

/-! ## A walk in the order of the list -/

section

variable {xs : List α}
  (hnext : ∀ i x, xs[i]? = some x → xs[(i + 1) % xs.length]? = some (next x))

include hnext

theorem getElem?_iterate {i : Nat} {x : α} (hx : xs[i]? = some x) (j : Nat) :
    xs[(i + j) % xs.length]? = some (next^[j] x) := by
  induction j with
  | zero =>
    obtain ⟨hi, -⟩ := List.getElem?_eq_some_iff.mp hx
    rw [Nat.add_zero, Nat.mod_eq_of_lt hi]
    exact hx
  | succ j ih =>
    have hstep := hnext _ _ ih
    rw [Nat.mod_add_mod, Nat.add_assoc] at hstep
    rw [Function.iterate_succ_apply']
    exact hstep

theorem tours_in_order {x : α} (hx : x ∈ xs) : Tours next xs x := by
  obtain ⟨i, hi⟩ := List.mem_iff_getElem?.mp hx
  have hwalk := getElem?_iterate hnext hi
  constructor
  · have hrotate : ((List.range xs.length).map fun j => next^[j] x) = xs.rotate i := by
      apply List.ext_getElem?
      intro j
      by_cases hj : j < xs.length
      · rw [List.getElem?_rotate hj, Nat.add_comm, hwalk, List.getElem?_map,
          List.getElem?_range hj]
        rfl
      · rw [List.getElem?_eq_none (by simpa using hj), List.getElem?_eq_none (by simpa using hj)]
    rw [hrotate]
    exact List.rotate_perm xs i
  · obtain ⟨hlt, -⟩ := List.getElem?_eq_some_iff.mp hi
    have hback := hwalk xs.length
    rw [Nat.add_mod_right, Nat.mod_eq_of_lt hlt, hi] at hback
    exact (Option.some.inj hback).symm

end

/-! ## A walk that misses an element -/

section

variable {x₀ : α} {rest : List α}

/-- The walk is back at an element that stands in the list once only when it is over. -/
theorem Tours.not_back (h : Tours next (x₀ :: rest) x₀) (h₀ : x₀ ∉ rest) {j : Nat} (hj : 0 < j)
    (hlt : j < (x₀ :: rest).length) : next^[j] x₀ ≠ x₀ := by
  have hvisits := h.visits
  rw [List.length_cons, List.range_succ_eq_map, List.map_cons, List.map_map] at hvisits
  have hrest := hvisits.cons_inv
  obtain ⟨k, rfl⟩ : ∃ k, j = k + 1 := ⟨j - 1, by omega⟩
  intro heq
  apply h₀
  rw [← hrest.mem_iff, List.mem_map]
  rw [List.length_cons] at hlt
  exact ⟨k, List.mem_range.mpr (by omega), heq⟩

/-- Two elements with one key have one next element, so the walk comes back too early. -/
theorem keys_nodup_of_tours (hkey : ∀ x y, key x = key y → next x = next y) (h₀ : x₀ ∉ rest)
    (h : Tours next (x₀ :: rest) x₀) : ((x₀ :: rest).map key).Nodup := by
  have hdistinct : ∀ a b, a < b → b < (x₀ :: rest).length →
      key (next^[a] x₀) ≠ key (next^[b] x₀) := by
    intro a b hab hb heq
    have hstep : next^[a + 1] x₀ = next^[b + 1] x₀ := by
      rw [Function.iterate_succ_apply', Function.iterate_succ_apply']
      exact hkey _ _ heq
    have hearly : next^[(x₀ :: rest).length - (b + 1) + (a + 1)] x₀ = x₀ := by
      rw [Function.iterate_add_apply, hstep, ← Function.iterate_add_apply,
        show (x₀ :: rest).length - (b + 1) + (b + 1) = (x₀ :: rest).length by omega]
      exact h.returns
    exact h.not_back h₀ (by omega) (by omega) hearly
  rw [← (h.visits.map key).nodup_iff, List.map_map]
  apply List.Nodup.map_on _ List.nodup_range
  intro a ha b hb heq
  rw [List.mem_range] at ha hb
  by_contra hne
  rcases Nat.lt_or_gt_of_ne hne with hab | hba
  · exact hdistinct a b hab hb heq
  · exact hdistinct b a hba ha heq.symm

end

/-- The walk tours the list from every element exactly where the keys are different. The
first element stands in the list once. -/
theorem all_tour_iff {x₀ : α} {rest : List α} (h₀ : x₀ ∉ rest)
    (hkey : ∀ x y, key x = key y → next x = next y)
    (hnext : ((x₀ :: rest).map key).Nodup → ∀ i x, (x₀ :: rest)[i]? = some x →
      (x₀ :: rest)[(i + 1) % (x₀ :: rest).length]? = some (next x)) :
    (∀ x ∈ x₀ :: rest, Tours next (x₀ :: rest) x) ↔ ((x₀ :: rest).map key).Nodup := by
  constructor
  · intro h
    exact keys_nodup_of_tours hkey h₀ (h x₀ List.mem_cons_self)
  · intro hkeys x hx
    exact tours_in_order (hnext hkeys) hx

end tours
