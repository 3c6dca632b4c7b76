-- The stable sort of the Rust standard library, `slice::sort_by`, by the
-- promises of its documentation. On a comparator that is no total preorder the
-- order is unspecified, but the result is still a permutation.
import Mathlib.Data.List.Basic

namespace rust_slice

structure StableSort where
  sort_by : {α : Type} → (α → α → Ordering) → List α → List α
  perm : ∀ {α : Type} (cmp : α → α → Ordering) (xs : List α), (sort_by cmp xs).Perm xs
  /-- The sort sees the elements through the comparator alone. -/
  map : ∀ {α β : Type} (f : α → β) (cmp : β → β → Ordering) (xs : List α),
    (sort_by (fun a b => cmp (f a) (f b)) xs).map f = sort_by cmp (xs.map f)
  sorted : ∀ {α : Type} (cmp : α → α → Ordering) [Std.TransCmp cmp] (xs : List α),
    (sort_by cmp xs).Pairwise fun a b => (cmp a b).isLE
  stable : ∀ {α : Type} (cmp : α → α → Ordering) [Std.TransCmp cmp] (xs : List α) (a b : α),
    (cmp a b).isLE → [a, b].Sublist xs → [a, b].Sublist (sort_by cmp xs)

theorem isLE_total {α : Type} (cmp : α → α → Ordering) [Std.TransCmp cmp] (a b : α) :
    (cmp a b).isLE || (cmp b a).isLE := by
  have hswap : cmp b a = (cmp a b).swap := Std.OrientedCmp.eq_swap
  rw [hswap]
  cases cmp a b <;> rfl

theorem isLE_trans {α : Type} (cmp : α → α → Ordering) [Std.TransCmp cmp] (a b c : α)
    (hab : (cmp a b).isLE) (hbc : (cmp b c).isLE) : (cmp a c).isLE :=
  Std.TransCmp.isLE_trans hab hbc

/-- The comparator is a total preorder on some of the elements. -/
structure TotalPreorderOn {α : Type} (cmp : α → α → Ordering) (xs : List α) : Prop where
  swap : ∀ a ∈ xs, ∀ b ∈ xs, cmp b a = (cmp a b).swap
  trans : ∀ a ∈ xs, ∀ b ∈ xs, ∀ c ∈ xs, (cmp a b).isLE → (cmp b c).isLE → (cmp a c).isLE

theorem TotalPreorderOn.mono {α : Type} {cmp : α → α → Ordering} {xs ys : List α}
    (h : TotalPreorderOn cmp xs) (hsub : ys ⊆ xs) : TotalPreorderOn cmp ys where
  swap a ha b hb := h.swap a (hsub ha) b (hsub hb)
  trans a ha b hb c hc := h.trans a (hsub ha) b (hsub hb) c (hsub hc)

/-- The other way round it is one too. -/
theorem TotalPreorderOn.reverse {α : Type} {cmp : α → α → Ordering} {xs : List α}
    (h : TotalPreorderOn cmp xs) : TotalPreorderOn (fun a b => (cmp a b).swap) xs where
  swap a ha b hb := congrArg Ordering.swap (h.swap a ha b hb)
  trans a ha b hb c hc hab hbc := by
    simp only [← h.swap a ha b hb, ← h.swap b hb c hc, ← h.swap a ha c hc] at hab hbc ⊢
    exact h.trans c hc b hb a ha hbc hab

/-! ## Two elements of a list -/

theorem pair_sublist_or {α : Type} {a b : α} {xs : List α} (hne : a ≠ b) (ha : a ∈ xs)
    (hb : b ∈ xs) : [a, b].Sublist xs ∨ [b, a].Sublist xs := by
  induction xs with
  | nil => cases ha
  | cons x xs ih =>
    rcases List.mem_cons.mp ha with rfl | ha'
    · have hb' := (List.mem_cons.mp hb).resolve_left (Ne.symm hne)
      exact Or.inl (List.Sublist.cons_cons _ (List.singleton_sublist.mpr hb'))
    · rcases List.mem_cons.mp hb with rfl | hb'
      · exact Or.inr (List.Sublist.cons_cons _ (List.singleton_sublist.mpr ha'))
      · rcases ih ha' hb' with h | h
        · exact Or.inl (h.cons _)
        · exact Or.inr (h.cons _)

theorem not_both_sublist {α : Type} {a b : α} {xs : List α} (hnodup : xs.Nodup)
    (hab : [a, b].Sublist xs) (hba : [b, a].Sublist xs) : False := by
  induction xs with
  | nil => cases hab
  | cons x xs ih =>
    obtain ⟨hx, hxs⟩ := List.nodup_cons.mp hnodup
    rcases List.sublist_cons_iff.mp hab with hab' | ⟨r, hr, hr'⟩
    · rcases List.sublist_cons_iff.mp hba with hba' | ⟨r, hr, hr'⟩
      · exact ih hxs hab' hba'
      · cases hr
        exact hx (hab'.subset (by simp))
    · cases hr
      have hbx : b ∈ xs := hr'.subset (by simp)
      rcases List.sublist_cons_iff.mp hba with hba' | ⟨r, hr, hr''⟩
      · exact hx (hba'.subset (by simp))
      · cases hr
        exact hx hbx

/-! ## A sort of the elements it is given -/

/-- On the elements alone the comparator is one everywhere. -/
theorem TotalPreorderOn.transCmp {α : Type} {cmp : α → α → Ordering} {xs : List α}
    (h : TotalPreorderOn cmp xs) :
    Std.TransCmp fun a b : {x // x ∈ xs} => cmp a.val b.val where
  eq_swap := fun {a b} => h.swap b.val b.property a.val a.property
  isLE_trans := fun {a b c} => h.trans a.val a.property b.val b.property c.val c.property

/-- To sort the elements is to sort the list. -/
theorem StableSort.sort_attach (std : StableSort) {α : Type} (cmp : α → α → Ordering)
    (xs : List α) :
    (std.sort_by (fun a b : {x // x ∈ xs} => cmp a.val b.val) xs.attach).map Subtype.val =
      std.sort_by cmp xs := by
  rw [std.map Subtype.val cmp, List.attach_map_subtype_val]

/-- The sort orders a list on which its comparator is a total preorder, whatever the
comparator says of other elements. -/
theorem StableSort.sorted_on (std : StableSort) {α : Type} {cmp : α → α → Ordering} {xs : List α}
    (h : TotalPreorderOn cmp xs) : (std.sort_by cmp xs).Pairwise fun a b => (cmp a b).isLE := by
  have hcmp := h.transCmp
  have hsorted := std.sorted (fun a b : {x // x ∈ xs} => cmp a.val b.val) xs.attach
  rw [← std.sort_attach, List.pairwise_map]
  exact hsorted

/-- There it is stable too. -/
theorem StableSort.stable_on (std : StableSort) {α : Type} {cmp : α → α → Ordering} {xs : List α}
    (h : TotalPreorderOn cmp xs) {a b : α} (hab : (cmp a b).isLE) (hsub : [a, b].Sublist xs) :
    [a, b].Sublist (std.sort_by cmp xs) := by
  have hcmp := h.transCmp
  rw [← List.attach_map_subtype_val xs, List.sublist_map_iff] at hsub
  obtain ⟨pair, hpair, heq⟩ := hsub
  rw [← std.sort_attach, List.sublist_map_iff]
  refine ⟨pair, ?_, heq⟩
  match pair, hpair, heq with
  | [a', b'], hpair, heq =>
    cases heq
    exact std.stable (fun a b : {x // x ∈ xs} => cmp a.val b.val) xs.attach a' b' hab hpair

/-- Elements that compare equal come out of the sort in the order they went in. -/
theorem StableSort.ties_on (std : StableSort) {α : Type} {cmp : α → α → Ordering} {xs : List α}
    (h : TotalPreorderOn cmp xs) (hnodup : xs.Nodup) {a b : α} (hab : cmp a b = .eq)
    (hsub : [a, b].Sublist (std.sort_by cmp xs)) : [a, b].Sublist xs := by
  have hperm := std.perm cmp xs
  have ha : a ∈ xs := hperm.subset (hsub.subset (by simp))
  have hb : b ∈ xs := hperm.subset (hsub.subset (by simp))
  have hsorted : (std.sort_by cmp xs).Nodup := hperm.nodup_iff.mpr hnodup
  have hne : a ≠ b := by
    have := hsub.nodup hsorted
    simpa using this
  by_contra hno
  -- then the other one stands first, in the list and after the sort
  have hba : (cmp b a).isLE := by
    rw [h.swap a ha b hb, hab]
    rfl
  have hother := std.stable_on h hba ((pair_sublist_or hne ha hb).resolve_left hno)
  exact not_both_sublist hsorted hsub hother

/-! ## A sort by two keys -/

/-- The larger first key comes first, and among equal ones the smaller second key. -/
def desc_then_asc {α β γ : Type} [Ord β] [Ord γ] (f : α → β) (g : α → γ) (a b : α) : Ordering :=
  (compare (f b) (f a)).then (compare (g a) (g b))

instance {α β γ : Type} [Ord β] [Ord γ] [Std.TransOrd β] [Std.TransOrd γ] (f : α → β) (g : α → γ) :
    Std.TransCmp (desc_then_asc f g) :=
  inferInstanceAs (Std.TransCmp (compareLex (fun a b => compareOn f b a) (compareOn g)))

theorem desc_then_asc_isLE {α γ : Type} [Ord γ] (f : α → Int) (g : α → γ) (a b : α) :
    (desc_then_asc f g a b).isLE = true ↔ f b < f a ∨ f a = f b ∧ (compare (g a) (g b)).isLE := by
  unfold desc_then_asc
  rcases hcmp : compare (f b) (f a) with _ | _ | _
  · have hlt := Std.compare_eq_lt.mp hcmp
    simp [hlt]
  · have heq := Std.compare_eq_iff_eq.mp hcmp
    simp [heq]
  · have hgt := Std.compare_eq_gt.mp hcmp
    simp [Ordering.isLE]
    omega

theorem desc_then_asc_eq {α β γ : Type} [Ord β] [Ord γ] [Std.LawfulEqOrd β] [Std.LawfulEqOrd γ]
    {f : α → β} {g : α → γ} {a b : α} (h : desc_then_asc f g a b = .eq) :
    f a = f b ∧ g a = g b := by
  rw [desc_then_asc, Ordering.then_eq_eq] at h
  exact ⟨(Std.compare_eq_iff_eq.mp h.1).symm, Std.compare_eq_iff_eq.mp h.2⟩

/-- Where only equal elements compare equal, one order alone is sorted. -/
theorem StableSort.eq_of_sorted (std : StableSort) {α : Type} {cmp : α → α → Ordering}
    [Std.TransCmp cmp] (hcmp : ∀ a b, cmp a b = .eq → a = b) {xs ys : List α} (hperm : ys.Perm xs)
    (hsorted : ys.Pairwise fun a b => (cmp a b).isLE) : std.sort_by cmp xs = ys := by
  apply List.Perm.eq_of_pairwise _ (std.sorted cmp xs) hsorted ((std.perm cmp xs).trans hperm.symm)
  intro a b _ _ hab hba
  apply hcmp
  have hswap : cmp b a = (cmp a b).swap := Std.OrientedCmp.eq_swap
  rw [hswap] at hba
  cases h : cmp a b <;> simp [h, Ordering.isLE] at hab hba ⊢

/-- A merge sort keeps the promises. -/
def mergeSort : StableSort where
  sort_by cmp xs := xs.mergeSort fun a b => (cmp a b).isLE
  perm _ xs := xs.mergeSort_perm _
  map _ _ _ := List.map_mergeSort fun _ _ _ _ => rfl
  sorted cmp _ xs := List.pairwise_mergeSort (isLE_trans cmp) (isLE_total cmp) xs
  stable cmp _ _ _ _ hab h := List.pair_sublist_mergeSort (isLE_trans cmp) (isLE_total cmp) hab h

/-- A list that is sorted stays as it is. -/
theorem mergeSort_of_sorted {α : Type} (cmp : α → α → Ordering) (xs : List α)
    (h : xs.Pairwise fun a b => (cmp a b).isLE) : mergeSort.sort_by cmp xs = xs :=
  List.mergeSort_of_pairwise h

end rust_slice
