-- A filter goes through a stable sort, and through the choice of the first element of each key
-- where it looks at the key alone.
import Mathlib.Data.List.Basic
import Mathlib.Data.List.Perm.Basic
import Kaptein.Lib.FirstByKey
import Kaptein.Lib.StableSort

namespace rust_slice

section

variable {α : Type} (std : StableSort) (cmp : α → α → Ordering) [Std.TransCmp cmp]

/-- Elements that stand with their places are compared without them. -/
def by_element (p q : α × Nat) : Ordering := cmp p.1 q.1

instance : Std.TransCmp (by_element cmp) where
  eq_swap := by
    intro p q
    exact @Std.OrientedCmp.eq_swap α cmp _ p.1 q.1
  isLE_trans := by
    intro p q r
    exact @Std.TransCmp.isLE_trans α cmp _ p.1 q.1 r.1

/-- The smaller element comes first, and of two that compare equal the one that came first. -/
def Before (p q : α × Nat) : Prop := cmp p.1 q.1 = .lt ∨ cmp p.1 q.1 = .eq ∧ p.2 < q.2

theorem before_asymm {p q : α × Nat} (h : Before cmp p q) : ¬Before cmp q p := by
  have hswap : cmp q.1 p.1 = (cmp p.1 q.1).swap := Std.OrientedCmp.eq_swap
  unfold Before at h ⊢
  rw [hswap]
  rcases h with h | ⟨h, hlt⟩
  · simp [h]
  · simp only [h, Ordering.swap_eq, reduceCtorEq, true_and, false_or]
    omega

/-- Numbered elements are sorted in one way. -/
theorem sorted_before {zs : List (α × Nat)} (hz : zs.Pairwise fun p q => p.2 < q.2) :
    (std.sort_by (by_element cmp) zs).Pairwise (Before cmp) := by
  have hnodup : zs.Nodup := hz.imp fun hlt heq => by
    rw [heq] at hlt
    exact Nat.lt_irrefl _ hlt
  have hon : TotalPreorderOn (by_element cmp) zs :=
    ⟨fun _ _ _ _ => Std.OrientedCmp.eq_swap, fun _ _ _ _ _ _ => Std.TransCmp.isLE_trans⟩
  rw [List.pairwise_iff_forall_sublist]
  intro p q hsub
  have hle := List.pairwise_iff_forall_sublist.mp (std.sorted (by_element cmp) zs) hsub
  cases hcmp : cmp p.1 q.1 with
  | lt => exact Or.inl hcmp
  | eq =>
    have hin := std.ties_on hon hnodup (show by_element cmp p q = .eq from hcmp) hsub
    exact Or.inr ⟨hcmp, List.pairwise_iff_forall_sublist.mp hz hin⟩
  | gt =>
    have hgt : by_element cmp p q = .gt := hcmp
    rw [hgt] at hle
    cases hle

theorem zipIdx_places (xs : List α) : xs.zipIdx.Pairwise fun p q => p.2 < q.2 := by
  rw [← List.pairwise_map (f := Prod.snd) (R := (· < ·)), List.zipIdx_map_snd]
  exact List.pairwise_lt_range'

/-- What is sorted and then filtered is filtered and then sorted. -/
theorem StableSort.sort_filter (p : α → Bool) (xs : List α) :
    std.sort_by cmp (xs.filter p) = (std.sort_by cmp xs).filter p := by
  have hplaces := zipIdx_places xs
  have hsub : (xs.zipIdx.filter (p ∘ Prod.fst)).Sublist xs.zipIdx := List.filter_sublist
  have hnumbered : std.sort_by (by_element cmp) (xs.zipIdx.filter (p ∘ Prod.fst)) =
      (std.sort_by (by_element cmp) xs.zipIdx).filter (p ∘ Prod.fst) := by
    have hperm := (std.perm (by_element cmp) (xs.zipIdx.filter (p ∘ Prod.fst))).trans
      ((std.perm (by_element cmp) xs.zipIdx).filter _).symm
    refine hperm.eq_of_pairwise ?_ (sorted_before std cmp (hplaces.sublist hsub))
      ((sorted_before std cmp hplaces).filter _)
    intro a b _ _ hab hba
    exact absurd hba (before_asymm cmp hab)
  have hfst : ∀ zs : List (α × Nat), (std.sort_by (by_element cmp) zs).map Prod.fst =
      std.sort_by cmp (zs.map Prod.fst) := std.map Prod.fst cmp
  calc std.sort_by cmp (xs.filter p)
      = std.sort_by cmp ((xs.zipIdx.filter (p ∘ Prod.fst)).map Prod.fst) := by
        rw [← List.filter_map, List.zipIdx_map_fst]
    _ = ((std.sort_by (by_element cmp) xs.zipIdx).filter (p ∘ Prod.fst)).map Prod.fst := by
        rw [← hfst, hnumbered]
    _ = (std.sort_by cmp xs).filter p := by
        rw [← List.filter_map, hfst, List.zipIdx_map_fst]

end

section

variable {α β : Type*} [DecidableEq β] (key : α → β)

theorem retain_first_sublist (seen : List β) (as : List α) :
    (retain_first key seen as).Sublist as := by
  induction as generalizing seen with
  | nil => exact List.Sublist.slnil
  | cons a as ih =>
    unfold retain_first
    split
    · exact (ih seen).cons a
    · exact (ih _).cons_cons a

/-- What was seen counts for the keys of the elements alone. -/
theorem retain_first_congr {seen seen' : List β} (as : List α)
    (h : ∀ a ∈ as, key a ∈ seen ↔ key a ∈ seen') :
    retain_first key seen as = retain_first key seen' as := by
  induction as generalizing seen seen' with
  | nil => rfl
  | cons a as ih =>
    have hrest : ∀ b ∈ as, key b ∈ seen ↔ key b ∈ seen' :=
      fun b hb => h b (List.mem_cons_of_mem _ hb)
    have hnext : retain_first key (key a :: seen) as = retain_first key (key a :: seen') as := by
      refine ih fun b hb => ?_
      rw [List.mem_cons, List.mem_cons, hrest b hb]
    simp only [retain_first, h a List.mem_cons_self, ih hrest, hnext]

/-- A filter that looks at the key alone goes through the choice. -/
theorem retain_first_filter {p : α → Bool} (hp : ∀ a b, key a = key b → p a = p b)
    (seen : List β) (as : List α) :
    retain_first key seen (as.filter p) = (retain_first key seen as).filter p := by
  induction as generalizing seen with
  | nil => rfl
  | cons a as ih =>
    cases ha : p a with
    | true =>
      simp only [retain_first, List.filter_cons_of_pos ha]
      split
      · exact ih seen
      · rw [List.filter_cons_of_pos ha, ih]
    | false =>
      have ha' : ¬p a = true := by simp [ha]
      rw [List.filter_cons_of_neg ha', retain_first]
      split
      · exact ih seen
      · rw [List.filter_cons_of_neg ha', ← ih]
        refine retain_first_congr key _ fun b hb => ?_
        have hne : key b ≠ key a := by
          intro hkey
          have hb' : p b = true := (List.mem_filter.mp hb).2
          rw [hp b a hkey, ha] at hb'
          cases hb'
        simp [hne]

end

/-! ## A list in descending order -/

/-- The elements above a bound stand before the others. -/
theorem filter_above_append {α : Type*} (f : α → Int) (bound : Int) {xs : List α}
    (h : xs.Pairwise fun a b => f b ≤ f a) :
    (xs.filter fun a => bound < f a) ++ (xs.filter fun a => f a ≤ bound) = xs := by
  induction xs with
  | nil => rfl
  | cons a xs ih =>
    obtain ⟨ha, hrest⟩ := List.pairwise_cons.mp h
    by_cases hlt : bound < f a
    · rw [List.filter_cons_of_pos (by simpa using hlt),
        List.filter_cons_of_neg (by simpa using hlt), List.cons_append, ih hrest]
    · have hle : ∀ b ∈ a :: xs, f b ≤ bound := by
        intro b hb
        rcases List.mem_cons.mp hb with rfl | hb
        · exact Int.not_lt.mp hlt
        · exact Int.le_trans (ha b hb) (Int.not_lt.mp hlt)
      have hnone : (a :: xs).filter (fun a => decide (bound < f a)) = [] := by
        rw [List.filter_eq_nil_iff]
        intro b hb
        simpa using hle b hb
      have hall : (a :: xs).filter (fun a => decide (f a ≤ bound)) = a :: xs := by
        rw [List.filter_eq_self]
        intro b hb
        simpa using hle b hb
      rw [hnone, hall, List.nil_append]

end rust_slice
