-- Lists of slices that stand in order, overlap nowhere and leave out no
-- marked element.
import Kaptein.Lib.Window

namespace windows

section

variable {α : Type*}

theorem drop_eq_slice_append (l : List α) {a b : Nat} (h : a ≤ b) :
    l.drop a = slice l a b ++ l.drop b := by
  have hslice : slice l a b = (l.drop a).take (b - a) := by
    rw [slice, List.take_drop, Nat.add_sub_cancel' h]
  have hb : l.drop b = (l.drop a).drop (b - a) := by
    rw [List.drop_drop, Nat.add_sub_cancel' h]
  rw [hslice, hb, List.take_append_drop]

theorem length_slice (l : List α) {a b : Nat} (hb : b ≤ l.length) :
    (slice l a b).length = b - a := by
  rw [slice, List.length_drop, List.length_take, Nat.min_eq_left hb]

theorem slice_eq_cons {l : List α} {a b : Nat} (ha : a < l.length) (hab : a < b) :
    slice l a b = l[a] :: slice l (a + 1) b := by
  have hlt : a < (l.take b).length := by
    rw [List.length_take]
    omega
  rw [slice, slice, List.drop_eq_getElem_cons hlt, List.getElem_take]

theorem mem_slice {l : List α} {a b : Nat} {x : α} (h : x ∈ slice l a b) :
    ∃ j, a ≤ j ∧ j < b ∧ l[j]? = some x := by
  obtain ⟨j, hj⟩ := List.mem_iff_getElem?.mp h
  rw [getElem?_slice] at hj
  split at hj
  · exact ⟨a + j, by omega, by omega, hj⟩
  · cases hj

variable (p : α → Bool)

/-- The element at the place is marked. -/
def Marked (l : List α) (j : Nat) : Prop := ∃ h : j < l.length, p l[j] = true

/-- Two marked elements with others between them, none of these marked, have at
least so many of them between. -/
def Spaced (l : List α) (gap : Nat) : Prop :=
  ∀ a b, Marked p l a → Marked p l b → a + 1 < b → (∀ k, a < k → k < b → ¬Marked p l k) →
    gap ≤ b - a - 1

theorem takeWhile_run (l : List α) :
    (∀ j < (l.takeWhile p).length, Marked p l j) ∧ ¬Marked p l (l.takeWhile p).length := by
  induction l with
  | nil => simp [Marked]
  | cons a l ih =>
    cases ha : p a with
    | false =>
      rw [List.takeWhile_cons_of_neg (by simp [ha])]
      simp [Marked, ha]
    | true =>
      rw [List.takeWhile_cons_of_pos ha]
      constructor
      · rintro (_ | j) hj
        · exact ⟨by simp, ha⟩
        · obtain ⟨hlt, hmark⟩ := ih.1 j (by simpa using hj)
          exact ⟨by simpa using hlt, by simpa using hmark⟩
      · rintro ⟨hlt, hmark⟩
        exact ih.2 ⟨by simpa using hlt, by simpa using hmark⟩

theorem marked_drop {l : List α} {i j : Nat} : Marked p (l.drop i) j ↔ Marked p l (i + j) := by
  constructor
  · rintro ⟨hlt, hmark⟩
    rw [List.length_drop] at hlt
    exact ⟨by omega, by simpa using hmark⟩
  · rintro ⟨hlt, hmark⟩
    exact ⟨by rw [List.length_drop]; omega, by simpa using hmark⟩

theorem marked_take {l : List α} {n j : Nat} : Marked p (l.take n) j ↔ j < n ∧ Marked p l j := by
  constructor
  · rintro ⟨hlt, hmark⟩
    rw [List.length_take] at hlt
    exact ⟨by omega, by omega, by simpa using hmark⟩
  · rintro ⟨hn, hlt, hmark⟩
    exact ⟨by rw [List.length_take]; omega, by simpa using hmark⟩

theorem marked_not {l : List α} {j : Nat} :
    Marked (fun a => !p a) l j ↔ j < l.length ∧ ¬Marked p l j := by
  constructor
  · rintro ⟨hlt, hmark⟩
    refine ⟨hlt, ?_⟩
    rintro ⟨_, hmark'⟩
    simp [hmark'] at hmark
  · rintro ⟨hlt, hno⟩
    refine ⟨hlt, ?_⟩
    by_contra hmark
    exact hno ⟨hlt, by simpa using hmark⟩

/-- The parts are slices of the list in its order, none reaches into another one,
and what stands outside of them is not marked. -/
inductive Covered : List α → List (List α) → Prop
  | done {l : List α} (h : ∀ a ∈ l, p a = false) : Covered l []
  | part {skipped part rest : List α} {parts : List (List α)} (h : ∀ a ∈ skipped, p a = false)
    (hrest : Covered rest parts) : Covered (skipped ++ (part ++ rest)) (part :: parts)

variable {p}

/-- The parts show each marked element as often as the list has it. -/
theorem Covered.countP_eq {l : List α} {parts : List (List α)} (h : Covered p l parts)
    {q : α → Bool} (hq : ∀ a, q a = true → p a = true) : parts.flatten.countP q = l.countP q := by
  have hnone : ∀ as : List α, (∀ a ∈ as, p a = false) → as.countP q = 0 := by
    intro as has
    rw [List.countP_eq_zero]
    intro a ha hqa
    have hpa := has a ha
    rw [hq a hqa] at hpa
    cases hpa
  induction h with
  | done h => simp [hnone _ h]
  | part h _ ih =>
    rw [List.flatten_cons, List.countP_append, List.countP_append, List.countP_append, ih,
      hnone _ h]
    omega

/-- What stands before the first marked element is the same in every split there. -/
theorem eq_of_first_marked {xs xs' ys ys' : List α} {a a' : α}
    (hxs : ∀ x ∈ xs, p x = false) (hxs' : ∀ x ∈ xs', p x = false) (ha : p a = true)
    (ha' : p a' = true) (h : xs ++ a :: ys = xs' ++ a' :: ys') : xs = xs' := by
  have htake : ∀ (zs ws : List α) (c : α), (∀ x ∈ zs, p x = false) → p c = true →
      (zs ++ c :: ws).takeWhile (fun x => !p x) = zs := by
    intro zs ws c hzs hc
    rw [List.takeWhile_append_of_pos (by simpa using hzs),
      List.takeWhile_cons_of_neg (by simp [hc]), List.append_nil]
  rw [← htake xs ys a hxs ha, h, htake xs' ys' a' hxs' ha']

/-- A slice around the first marked element after `pos` is a part exactly where it starts
no sooner than `pos`. The other parts show each marked element behind it at least once. -/
theorem covered_slice_iff {l : List α} {parts : List (List α)} {pos start i stop : Nat}
    (hpos : pos ≤ i) (hstart : start ≤ i) (hi : i < l.length) (hstop : i < stop)
    (hskip : ∀ a ∈ slice l pos i, p a = false) (hmark : p l[i] = true)
    (hcount : (l.drop stop).countP p ≤ parts.flatten.countP p) :
    Covered p (l.drop pos) (slice l start stop :: parts) ↔
      pos ≤ start ∧ Covered p (l.drop stop) parts := by
  have hbody := slice_eq_cons hi hstop
  have hafter : l.drop pos = slice l pos i ++ (slice l i stop ++ l.drop stop) := by
    rw [drop_eq_slice_append l hpos, drop_eq_slice_append l (by omega : i ≤ stop)]
  constructor
  · intro h
    have hshown := h.countP_eq fun _ ha => ha
    generalize hl : l.drop pos = l' at h
    cases h with
    | @part skipped _ rest _ hskipped hrest =>
      rw [← slice_append_slice l hstart (by omega : i ≤ stop)] at hl hshown
      -- a marked element in front of `i` would be shown once too often
      have hlead : ∀ a ∈ slice l start i, ¬p a = true := by
        have hnone : (slice l pos i).countP p = 0 := by
          rw [List.countP_eq_zero]
          intro a ha
          simp [hskip a ha]
        rw [hafter, List.flatten_cons, List.countP_append, List.countP_append, List.countP_append,
          List.countP_append, hnone] at hshown
        rw [← List.countP_eq_zero]
        omega
      have hsplit : slice l pos i ++ l[i] :: (slice l (i + 1) stop ++ l.drop stop) =
          (skipped ++ slice l start i) ++ l[i] :: (slice l (i + 1) stop ++ rest) := by
        rw [← List.cons_append, ← List.cons_append, ← hbody, ← hafter, hl]
        simp only [List.append_assoc]
      have hfront : slice l pos i = skipped ++ slice l start i := by
        apply eq_of_first_marked hskip _ hmark hmark hsplit
        intro a ha
        rcases List.mem_append.mp ha with ha | ha
        · exact hskipped a ha
        · simpa using hlead a ha
      have hsame : rest = l.drop stop := by
        rw [hafter, hfront] at hl
        simpa using hl.symm
      have hsum := congrArg List.length hfront
      rw [List.length_append, length_slice l (by omega), length_slice l (by omega)] at hsum
      rw [← hsame]
      exact ⟨by omega, hrest⟩
  · rintro ⟨hle, h⟩
    rw [drop_eq_slice_append l hle, drop_eq_slice_append l (by omega : start ≤ stop)]
    apply Covered.part _ h
    intro a ha
    apply hskip a
    rw [← slice_append_slice l hle hstart]
    exact List.mem_append_left _ ha

end

end windows
