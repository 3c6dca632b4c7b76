-- One sweep over a list of elements that name their owners: an element with a known
-- owner is found, and its own id is known from then on. The order of the list matters.
import Mathlib.Data.List.Perm.Basic

namespace sweep

open scoped List

section

variable {α U : Type*} (owners : α → List U) (id : α → Option U)

/-! ## The sweep -/

def found [DecidableEq U] (known : List U) : List α → List α
  | [] => []
  | x :: xs =>
    if (owners x).any fun u => decide (u ∈ known) then
      x :: found ((id x).toList ++ known) xs
    else found known xs

variable {owners id}

/-- One of the owners is in the set. -/
def OwnedIn (owners : α → List U) (O : U → Prop) (x : α) : Prop := ∃ u ∈ owners x, O u

open scoped Classical in
/-- The elements with an owner in the set. -/
noncomputable def owned (owners : α → List U) (O : U → Prop) (xs : List α) : List α :=
  xs.filter fun x => OwnedIn owners O x

theorem mem_owned {O : U → Prop} {xs : List α} {x : α} :
    x ∈ owned owners O xs ↔ x ∈ xs ∧ OwnedIn owners O x := by
  simp [owned]

theorem owned_cons_of_pos {O : U → Prop} {x : α} (xs : List α) (h : OwnedIn owners O x) :
    owned owners O (x :: xs) = x :: owned owners O xs := by
  simp [owned, h]

theorem owned_cons_of_neg {O : U → Prop} {x : α} (xs : List α) (h : ¬OwnedIn owners O x) :
    owned owners O (x :: xs) = owned owners O xs := by
  simp [owned, h]

theorem owned_eq_nil {O : U → Prop} {xs : List α} (h : ∀ x ∈ xs, ¬OwnedIn owners O x) :
    owned owners O xs = [] := by
  simpa [owned] using h

theorem filter_sublist_owned {O : U → Prop} {p : α → Bool} (xs : List α)
    (h : ∀ x, p x = true → OwnedIn owners O x) : (xs.filter p).Sublist (owned owners O xs) := by
  apply List.monotone_filter_right
  intro x hx
  simpa using h x hx

theorem filter_eq_owned {O : U → Prop} {p : α → Bool} {xs : List α}
    (h : ∀ x ∈ xs, p x = true ↔ OwnedIn owners O x) : xs.filter p = owned owners O xs := by
  apply List.filter_congr
  intro x hx
  rw [Bool.eq_iff_iff, h x hx]
  simp

theorem owned_perm {O : U → Prop} {xs ys : List α} (h : xs ~ ys) :
    owned owners O xs ~ owned owners O ys := h.filter _

/-- The set has the id of each element of the list that has an owner in it. -/
def Closed (owners : α → List U) (id : α → Option U) (O : U → Prop) (xs : List α) : Prop :=
  ∀ x ∈ xs, OwnedIn owners O x → ∀ u, id x = some u → O u

theorem Closed.tail {O : U → Prop} {x : α} {xs : List α} (h : Closed owners id O (x :: xs)) :
    Closed owners id O xs := fun y hy => h y (List.mem_cons_of_mem _ hy)

theorem Closed.known {O : U → Prop} {x : α} {xs : List α} {known : List U}
    (h : Closed owners id O (x :: xs)) (hknown : ∀ u ∈ known, O u) (hx : OwnedIn owners O x) :
    ∀ u ∈ (id x).toList ++ known, O u := by
  intro u hu
  rcases List.mem_append.mp hu with hu | hu
  · exact h x List.mem_cons_self hx u (Option.mem_toList.mp hu)
  · exact hknown u hu

theorem OwnedIn.mono {O O' : U → Prop} {x : α} (h : OwnedIn owners O x) (hO : ∀ u, O u → O' u) :
    OwnedIn owners O' x := by
  obtain ⟨u, hu, hOu⟩ := h
  exact ⟨u, hu, hO u hOu⟩

variable [DecidableEq U]

theorem found_cons_of_known {known : List U} {x : α} (xs : List α)
    (h : OwnedIn owners (· ∈ known) x) :
    found owners id known (x :: xs) = x :: found owners id ((id x).toList ++ known) xs := by
  rw [found, if_pos]
  simpa [OwnedIn] using h

theorem found_cons_of_not_known {known : List U} {x : α} (xs : List α)
    (h : ¬OwnedIn owners (· ∈ known) x) :
    found owners id known (x :: xs) = found owners id known xs := by
  rw [found, if_neg]
  simpa [OwnedIn] using h

/-- The sweep looks up the known ids, in whatever order they stand. -/
theorem found_congr {known known' : List U} (h : ∀ u, u ∈ known ↔ u ∈ known') (xs : List α) :
    found owners id known xs = found owners id known' xs := by
  induction xs generalizing known known' with
  | nil => rfl
  | cons x xs ih =>
    have hx : OwnedIn owners (· ∈ known) x ↔ OwnedIn owners (· ∈ known') x := by
      simp only [OwnedIn, h]
    by_cases hk : OwnedIn owners (· ∈ known) x
    · rw [found_cons_of_known xs hk, found_cons_of_known xs (hx.mp hk)]
      congr 1
      apply ih
      intro u
      rw [List.mem_append, List.mem_append, h]
    · rw [found_cons_of_not_known xs hk, found_cons_of_not_known xs (fun hk' => hk (hx.mpr hk')),
        ih h]

/-- An element with an owner that was known at the start is found in every order. -/
theorem mem_found_of_known {known : List U} {xs : List α} {x : α} (hx : x ∈ xs)
    (h : OwnedIn owners (· ∈ known) x) : x ∈ found owners id known xs := by
  induction xs generalizing known with
  | nil => cases hx
  | cons y xs ih =>
    by_cases hy : OwnedIn owners (· ∈ known) y
    · rw [found_cons_of_known xs hy]
      rcases List.mem_cons.mp hx with rfl | hx
      · exact List.mem_cons_self
      · obtain ⟨u, hu, hk⟩ := h
        exact List.mem_cons_of_mem _ (ih hx ⟨u, hu, List.mem_append_right _ hk⟩)
    · rw [found_cons_of_not_known xs hy]
      rcases List.mem_cons.mp hx with rfl | hx
      · exact absurd h hy
      · exact ih hx h

/-! ## The sweep beside a closed set of ids -/

/-- From ids of a closed set, the sweep finds elements with an owner in it and no others. -/
theorem found_sublist_owned {O : U → Prop} {known : List U} {xs : List α}
    (hclosed : Closed owners id O xs) (hknown : ∀ u ∈ known, O u) :
    (found owners id known xs).Sublist (owned owners O xs) := by
  induction xs generalizing known with
  | nil => exact List.Sublist.slnil
  | cons x xs ih =>
    by_cases hk : OwnedIn owners (· ∈ known) x
    · have hx : OwnedIn owners O x := hk.mono hknown
      rw [found_cons_of_known xs hk, owned_cons_of_pos xs hx]
      exact (ih hclosed.tail (hclosed.known hknown hx)).cons_cons x
    · rw [found_cons_of_not_known xs hk]
      by_cases hx : OwnedIn owners O x
      · rw [owned_cons_of_pos xs hx]
        exact (ih hclosed.tail hknown).cons x
      · rw [owned_cons_of_neg xs hx]
        exact ih hclosed.tail hknown

/-- When each of them has an owner that is known at the start, the sweep finds them all. -/
theorem found_eq_owned {O : U → Prop} {known : List U} {xs : List α}
    (hclosed : Closed owners id O xs) (hknown : ∀ u ∈ known, O u)
    (hdirect : ∀ x ∈ xs, OwnedIn owners O x → OwnedIn owners (· ∈ known) x) :
    found owners id known xs = owned owners O xs := by
  induction xs generalizing known with
  | nil => rfl
  | cons x xs ih =>
    by_cases hx : OwnedIn owners O x
    · rw [found_cons_of_known xs (hdirect x List.mem_cons_self hx), owned_cons_of_pos xs hx]
      congr 1
      apply ih hclosed.tail (hclosed.known hknown hx)
      intro y hy hO
      exact (hdirect y (List.mem_cons_of_mem _ hy) hO).mono fun u hu => List.mem_append_right _ hu
    · rw [found_cons_of_not_known xs fun hk => hx (hk.mono hknown), owned_cons_of_neg xs hx]
      exact ih hclosed.tail hknown fun y hy => hdirect y (List.mem_cons_of_mem _ hy)

/-- When the sweep finds them all in every order, each has an owner that is known at the start. -/
theorem known_of_found_eq_owned {O : U → Prop} {known : List U} {xs : List α}
    (hclosed : Closed owners id O xs) (hknown : ∀ u ∈ known, O u)
    (hall : ∀ ys, ys ~ xs → found owners id known ys = owned owners O ys) {x : α} (hx : x ∈ xs)
    (hO : OwnedIn owners O x) : OwnedIn owners (· ∈ known) x := by
  by_contra hk
  -- the order with the element in front
  obtain ⟨before, after, rfl⟩ := List.append_of_mem hx
  have hperm : x :: (before ++ after) ~ before ++ x :: after := List.perm_middle.symm
  have heq := hall _ hperm
  rw [found_cons_of_not_known _ hk, owned_cons_of_pos _ hO] at heq
  have hclosed' : Closed owners id O (before ++ after) := by
    intro y hy
    exact hclosed y (hperm.subset (List.mem_cons_of_mem _ hy))
  have hlen := (found_sublist_owned hclosed' hknown).length_le
  rw [heq, List.length_cons] at hlen
  exact Nat.not_succ_le_self _ hlen

end

end sweep
