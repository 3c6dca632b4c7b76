-- A list where the first element of each key stays, as `Vec::retain` leaves it
-- when it asks a set whether the key is new.
import Mathlib.Data.List.Basic

namespace rust_slice

section

variable {α β : Type*} [DecidableEq β] (key : α → β)

/-- The elements whose key was not seen before. -/
def retain_first (seen : List β) : List α → List α
  | [] => []
  | a :: as =>
    if key a ∈ seen then retain_first seen as else a :: retain_first (key a :: seen) as

theorem mem_retain_first (seen : List β) (as : List α) (a : α) :
    a ∈ retain_first key seen as ↔ key a ∉ seen ∧ as.find? (fun b => key b = key a) = some a := by
  induction as generalizing seen with
  | nil => simp [retain_first]
  | cons b as ih =>
    unfold retain_first
    by_cases hb : key b = key a
    · rw [List.find?_cons_of_pos (by simpa using hb), Option.some.injEq]
      split
      · rename_i hseen
        rw [hb] at hseen
        rw [ih]
        simp [hseen]
      · rename_i hseen
        rw [hb] at hseen ⊢
        rw [List.mem_cons, ih]
        simp only [List.mem_cons, not_true_eq_false, false_and, or_false, hseen,
          not_false_eq_true, true_and]
        exact eq_comm
    · rw [List.find?_cons_of_neg (by simpa using hb)]
      split
      · exact ih seen
      · have hne : a ≠ b := by
          rintro rfl
          exact hb rfl
        rw [List.mem_cons, ih, List.mem_cons]
        simp [hne, Ne.symm hb]

theorem retain_first_keys_nodup (seen : List β) (as : List α) :
    ((retain_first key seen as).map key).Nodup := by
  induction as generalizing seen with
  | nil => exact List.nodup_nil
  | cons a as ih =>
    unfold retain_first
    split
    · exact ih seen
    · rw [List.map_cons, List.nodup_cons]
      refine ⟨?_, ih _⟩
      intro hmem
      obtain ⟨b, hb, hkey⟩ := List.mem_map.mp hmem
      have hnew := ((mem_retain_first key _ _ b).mp hb).1
      rw [hkey] at hnew
      exact hnew List.mem_cons_self

/-- Every key of the list is a key of what stays. -/
theorem key_mem_retain_first {as : List α} {a : α} (h : a ∈ as) :
    key a ∈ (retain_first key [] as).map key := by
  have hsome : (as.find? fun b => key b = key a).isSome = true := by
    rw [List.find?_isSome]
    exact ⟨a, h, by simp⟩
  obtain ⟨b, hb⟩ := Option.isSome_iff_exists.mp hsome
  have hkey : key b = key a := by simpa using List.find?_some hb
  rw [← hkey]
  apply List.mem_map_of_mem
  rw [mem_retain_first, hkey]
  exact ⟨List.not_mem_nil, hb⟩

end

/-! ## A search with two tests against the first hit of one -/

section

variable {α : Type*} (p q : α → Bool)

/-- An element that passes both tests stands behind the first one that passes
`p`, and that one fails `q`. -/
def Shadowed (as : List α) : Prop :=
  ∃ before first after, as = before ++ first :: after ∧ (∀ a ∈ before, p a = false) ∧
    p first = true ∧ q first = false ∧ ∃ a ∈ after, p a = true ∧ q a = true

theorem not_shadowed_nil : ¬Shadowed p q [] := by
  rintro ⟨before, first, after, has, -⟩
  simp at has

theorem shadowed_cons_neg {a : α} (ha : p a = false) (as : List α) :
    Shadowed p q (a :: as) ↔ Shadowed p q as := by
  constructor
  · rintro ⟨_ | ⟨b, before⟩, first, after, has, hbefore, hfirst, hrest⟩
    · simp only [List.nil_append, List.cons.injEq] at has
      rw [has.1, hfirst] at ha
      exact absurd ha (by decide)
    · simp only [List.cons_append, List.cons.injEq] at has
      refine ⟨before, first, after, has.2, ?_, hfirst, hrest⟩
      intro c hc
      exact hbefore c (List.mem_cons_of_mem _ hc)
  · rintro ⟨before, first, after, rfl, hbefore, hfirst, hrest⟩
    refine ⟨a :: before, first, after, rfl, ?_, hfirst, hrest⟩
    intro c hc
    rcases List.mem_cons.mp hc with rfl | hc
    · exact ha
    · exact hbefore c hc

theorem shadowed_cons_pos {a : α} (ha : p a = true) (as : List α) :
    Shadowed p q (a :: as) ↔ q a = false ∧ ∃ b ∈ as, p b = true ∧ q b = true := by
  constructor
  · rintro ⟨_ | ⟨b, before⟩, first, after, has, hbefore, hfirst, hq, hrest⟩
    · simp only [List.nil_append, List.cons.injEq] at has
      obtain ⟨rfl, rfl⟩ := has
      exact ⟨hq, hrest⟩
    · simp only [List.cons_append, List.cons.injEq] at has
      have hb := hbefore b List.mem_cons_self
      rw [← has.1, ha] at hb
      exact absurd hb (by decide)
  · rintro ⟨hq, hrest⟩
    exact ⟨[], a, as, rfl, by simp, ha, hq, hrest⟩

/-- The search finds more than the first hit of `p` exactly where one is shadowed. -/
theorem any_and_iff_find_any (as : List α) :
    (as.any (fun a => p a && q a) = true ↔ (as.find? p).any q = true) ↔ ¬Shadowed p q as := by
  induction as with
  | nil => simp [not_shadowed_nil]
  | cons a as ih =>
    cases ha : p a with
    | false =>
      rw [shadowed_cons_neg p q ha, List.find?_cons_of_neg (by simp [ha]), ← ih, List.any_cons, ha]
      simp
    | true =>
      rw [shadowed_cons_pos p q ha, List.find?_cons_of_pos ha, List.any_cons, ha]
      cases hq : q a <;> simp [hq]

/-- Where `p` holds of one element at most, no element is shadowed. -/
theorem not_shadowed_of_pairwise {as : List α}
    (h : as.Pairwise fun a b => ¬(p a = true ∧ p b = true)) : ¬Shadowed p q as := by
  rintro ⟨before, first, after, rfl, -, hfirst, -, a, ha, hpa, -⟩
  have hafter := (List.pairwise_cons.mp (List.pairwise_append.mp h).2.1).1
  exact hafter a ha ⟨hfirst, hpa⟩

end

end rust_slice
