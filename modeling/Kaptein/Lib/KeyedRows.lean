-- Rows in a vector with an index of their keys, the layout of a table that
-- finds, replaces and removes a row in constant time. A removal moves the
-- last row into the gap.
import Mathlib.Logic.Function.Basic
import Mathlib.Data.List.Basic

namespace keyed_rows

variable {κ α : Type*} (key : α → κ)

/-- The index gives each key the place of its row. So no two rows share a key. -/
def Indexes (rows : List α) (index : κ → Option Nat) : Prop :=
  ∀ k i, index k = some i ↔ ∃ x, rows[i]? = some x ∧ key x = k

/-- The rows as a map from their keys, through the index. -/
def lookup (rows : List α) (index : κ → Option Nat) (k : κ) : Option α :=
  (index k).bind fun i => rows[i]?

/-- `Vec::swap_remove`: the last row takes the place of the removed one. -/
def swap_remove (rows : List α) (i : Nat) : List α :=
  match rows.getLast? with
  | some last => (rows.set i last).dropLast
  | none => []

/-- The index after the removal of the row of `k` at place `i`. -/
def index_after_remove [DecidableEq κ] (rows : List α) (index : κ → Option Nat) (k : κ) (i : Nat) :
    κ → Option Nat :=
  let index := Function.update index k none
  match (swap_remove rows i)[i]? with
  | some moved => Function.update index (key moved) (some i)
  | none => index

variable {key}

theorem indexes_nil : Indexes key [] (fun _ => none) := by
  intro k i
  simp

theorem Indexes.lt {rows : List α} {index : κ → Option Nat} (h : Indexes key rows index)
    {k : κ} {i : Nat} (hi : index k = some i) : i < rows.length := by
  obtain ⟨x, hx, _⟩ := (h k i).mp hi
  exact (List.getElem?_eq_some_iff.mp hx).1

/-- Two rows with one key stand at one place. -/
theorem Indexes.unique {rows : List α} {index : κ → Option Nat} (h : Indexes key rows index)
    {i j : Nat} {x y : α} (hx : rows[i]? = some x) (hy : rows[j]? = some y)
    (hk : key x = key y) : i = j := by
  have h1 := (h (key x) i).mpr ⟨x, hx, rfl⟩
  have h2 := (h (key x) j).mpr ⟨y, hy, hk.symm⟩
  rw [h1] at h2
  exact Option.some.inj h2

theorem lookup_eq_some {rows : List α} {index : κ → Option Nat} (h : Indexes key rows index)
    (k : κ) (x : α) : lookup rows index k = some x ↔ x ∈ rows ∧ key x = k := by
  unfold lookup
  constructor
  · intro hx
    obtain ⟨i, hi, hxi⟩ := Option.bind_eq_some_iff.mp hx
    obtain ⟨y, hy, hky⟩ := (h k i).mp hi
    rw [hxi] at hy
    cases hy
    exact ⟨List.mem_of_getElem? hxi, hky⟩
  · rintro ⟨hx, hk⟩
    obtain ⟨i, hi⟩ := List.mem_iff_getElem?.mp hx
    rw [(h k i).mpr ⟨x, hi, hk⟩]
    exact hi

variable [DecidableEq κ]

/-! ## A row replaced -/

omit [DecidableEq κ] in
theorem Indexes.set {rows : List α} {index : κ → Option Nat} (h : Indexes key rows index)
    {i : Nat} {x : α} (hi : index (key x) = some i) : Indexes key (rows.set i x) index := by
  obtain ⟨y, hy, hky⟩ := (h (key x) i).mp hi
  have hlt := h.lt hi
  intro k j
  by_cases hij : i = j
  · subst hij
    rw [List.getElem?_set_self hlt, h k i]
    constructor
    · rintro ⟨z, hz, hk⟩
      rw [hy] at hz
      cases hz
      exact ⟨x, rfl, by rw [← hk, hky]⟩
    · rintro ⟨z, hz, hk⟩
      cases hz
      exact ⟨y, hy, by rw [hky, hk]⟩
  · rw [List.getElem?_set_ne hij]
    exact h k j

theorem lookup_set {rows : List α} {index : κ → Option Nat} (h : Indexes key rows index)
    {i : Nat} {x : α} (hi : index (key x) = some i) :
    lookup (rows.set i x) index = Function.update (lookup rows index) (key x) (some x) := by
  funext k
  by_cases hk : k = key x
  · subst hk
    simp [lookup, hi, h.lt hi]
  · rw [Function.update_of_ne hk]
    unfold lookup
    cases hj : index k with
    | none => rfl
    | some j =>
      have hij : i ≠ j := by
        intro hij
        subst hij
        obtain ⟨y, hy, hky⟩ := (h _ _).mp hi
        obtain ⟨z, hz, hkz⟩ := (h _ _).mp hj
        rw [hy] at hz
        cases hz
        exact hk (by rw [← hkz, hky])
      simp [List.getElem?_set_ne hij]

/-! ## A row added -/

theorem Indexes.push {rows : List α} {index : κ → Option Nat} (h : Indexes key rows index)
    {x : α} (hn : index (key x) = none) :
    Indexes key (rows ++ [x]) (Function.update index (key x) (some rows.length)) := by
  intro k j
  by_cases hk : k = key x
  · subst hk
    simp only [Function.update_self, Option.some.injEq]
    constructor
    · intro hj
      subst hj
      exact ⟨x, by simp, rfl⟩
    · rintro ⟨y, hy, hky⟩
      rcases Nat.lt_trichotomy j rows.length with hlt | heq | hgt
      · rw [List.getElem?_append_left hlt] at hy
        rw [(h (key x) j).mpr ⟨y, hy, hky⟩] at hn
        cases hn
      · exact heq.symm
      · rw [List.getElem?_eq_none (by simp; omega)] at hy
        cases hy
  · rw [Function.update_of_ne hk, h k j]
    constructor
    · rintro ⟨y, hy, hky⟩
      have hlt := (List.getElem?_eq_some_iff.mp hy).1
      exact ⟨y, by rw [List.getElem?_append_left hlt]; exact hy, hky⟩
    · rintro ⟨y, hy, hky⟩
      rcases Nat.lt_trichotomy j rows.length with hlt | heq | hgt
      · rw [List.getElem?_append_left hlt] at hy
        exact ⟨y, hy, hky⟩
      · subst heq
        simp only [List.getElem?_concat_length, Option.some.injEq] at hy
        subst hy
        exact absurd hky.symm hk
      · rw [List.getElem?_eq_none (by simp; omega)] at hy
        cases hy

theorem lookup_push {rows : List α} {index : κ → Option Nat} (h : Indexes key rows index)
    (x : α) :
    lookup (rows ++ [x]) (Function.update index (key x) (some rows.length)) =
      Function.update (lookup rows index) (key x) (some x) := by
  funext k
  by_cases hk : k = key x
  · subst hk
    simp [lookup]
  · rw [Function.update_of_ne hk]
    unfold lookup
    rw [Function.update_of_ne hk]
    cases hj : index k with
    | none => rfl
    | some j => simp [List.getElem?_append_left (h.lt hj)]

/-! ## A row removed -/

omit [DecidableEq κ] in
/-- The places after a removal: place `i` holds the row that stood last. -/
theorem getElem?_swap_remove (rows : List α) (i j : Nat) (hi : i < rows.length) :
    (swap_remove rows i)[j]? =
      if j + 1 < rows.length then (if j = i then rows[rows.length - 1]? else rows[j]?)
      else none := by
  obtain ⟨last, hlast⟩ : ∃ last, rows[rows.length - 1]? = some last :=
    ⟨_, List.getElem?_eq_getElem (by omega)⟩
  have hswap : swap_remove rows i = (rows.set i last).dropLast := by
    unfold swap_remove
    rw [List.getLast?_eq_getElem?, hlast]
  rw [hswap, List.getElem?_dropLast, List.length_set, hlast]
  by_cases hj : j + 1 < rows.length
  · rw [if_pos (by omega), if_pos hj]
    by_cases hij : j = i
    · subst hij
      rw [List.getElem?_set_self hi, if_pos rfl]
    · rw [List.getElem?_set_ne (Ne.symm hij), if_neg hij]
  · rw [if_neg (by omega), if_neg hj]

theorem Indexes.swap_remove {rows : List α} {index : κ → Option Nat}
    (h : Indexes key rows index) {k : κ} {i : Nat} (hi : index k = some i) :
    Indexes key (keyed_rows.swap_remove rows i) (index_after_remove key rows index k i) := by
  have hlt := h.lt hi
  obtain ⟨x, hx, hkx⟩ := (h k i).mp hi
  obtain ⟨last, hlast⟩ : ∃ last, rows[rows.length - 1]? = some last :=
    ⟨_, List.getElem?_eq_getElem (by omega)⟩
  have hget := getElem?_swap_remove rows i i hlt
  intro k' j
  rw [getElem?_swap_remove rows i j hlt]
  unfold index_after_remove
  by_cases hmid : i + 1 < rows.length
  · -- the last row moves to place `i`
    rw [if_pos hmid, if_pos rfl, hlast] at hget
    have hne : key last ≠ k := by
      intro hk
      have := h.unique hlast hx (by rw [hk, hkx])
      omega
    simp only [hget]
    by_cases hl : k' = key last
    · subst hl
      simp only [Function.update_self, Option.some.injEq]
      constructor
      · intro hj
        subst hj
        exact ⟨last, by rw [if_pos hmid, if_pos rfl, hlast], rfl⟩
      · rintro ⟨y, hy, hky⟩
        by_contra hij
        split_ifs at hy with h1 h2
        · exact hij h2.symm
        · have := h.unique hy hlast hky
          omega
    · rw [Function.update_of_ne hl]
      by_cases hk : k' = k
      · subst hk
        simp only [Function.update_self, reduceCtorEq, false_iff]
        rintro ⟨y, hy, hky⟩
        split_ifs at hy with h1 h2
        · rw [hlast] at hy
          cases hy
          exact hl hky.symm
        · exact h2 (h.unique hy hx (by rw [hky, hkx]))
      · rw [Function.update_of_ne hk, h k' j]
        constructor
        · rintro ⟨y, hy, hky⟩
          have hji : j ≠ i := by
            intro hji
            subst hji
            rw [hx] at hy
            cases hy
            exact hk (by rw [← hky, hkx])
          have hjl : j ≠ rows.length - 1 := by
            intro hjl
            subst hjl
            rw [hlast] at hy
            cases hy
            exact hl hky.symm
          have hjlt := (List.getElem?_eq_some_iff.mp hy).1
          exact ⟨y, by rw [if_pos (by omega), if_neg hji]; exact hy, hky⟩
        · rintro ⟨y, hy, hky⟩
          split_ifs at hy with h1 h2
          · rw [hlast] at hy
            cases hy
            exact absurd hky.symm hl
          · exact ⟨y, hy, hky⟩
  · -- the removed row stands last, so no row moves
    rw [if_neg hmid] at hget
    simp only [hget]
    by_cases hk : k' = k
    · subst hk
      simp only [Function.update_self, reduceCtorEq, false_iff]
      rintro ⟨y, hy, hky⟩
      split_ifs at hy with h1 h2
      · omega
      · exact h2 (h.unique hy hx (by rw [hky, hkx]))
    · rw [Function.update_of_ne hk, h k' j]
      constructor
      · rintro ⟨y, hy, hky⟩
        have hji : j ≠ i := by
          intro hji
          subst hji
          rw [hx] at hy
          cases hy
          exact hk (by rw [← hky, hkx])
        have hjlt := (List.getElem?_eq_some_iff.mp hy).1
        exact ⟨y, by rw [if_pos (by omega), if_neg hji]; exact hy, hky⟩
      · rintro ⟨y, hy, hky⟩
        split_ifs at hy with h1 h2
        · omega
        · exact ⟨y, hy, hky⟩

omit [DecidableEq κ] in
/-- The rows after a removal are the other rows. -/
theorem mem_swap_remove {rows : List α} {index : κ → Option Nat} (h : Indexes key rows index)
    {k : κ} {i : Nat} (hi : index k = some i) (x : α) :
    x ∈ swap_remove rows i ↔ x ∈ rows ∧ key x ≠ k := by
  have hlt := h.lt hi
  obtain ⟨y, hy, hky⟩ := (h k i).mp hi
  simp only [List.mem_iff_getElem?, getElem?_swap_remove rows i _ hlt]
  constructor
  · rintro ⟨j, hj⟩
    split_ifs at hj with h1 h2
    · refine ⟨⟨_, hj⟩, ?_⟩
      intro hk
      have := h.unique hj hy (by rw [hk, hky])
      omega
    · refine ⟨⟨_, hj⟩, ?_⟩
      intro hk
      exact h2 (h.unique hj hy (by rw [hk, hky]))
  · rintro ⟨⟨j, hj⟩, hk⟩
    have hji : j ≠ i := by
      intro hji
      subst hji
      rw [hy] at hj
      cases hj
      exact hk hky
    have hjlt := (List.getElem?_eq_some_iff.mp hj).1
    by_cases hjl : j + 1 < rows.length
    · exact ⟨j, by rw [if_pos hjl, if_neg hji]; exact hj⟩
    · refine ⟨i, ?_⟩
      rw [if_pos (by omega), if_pos rfl, ← hj]
      congr 1
      omega

theorem lookup_swap_remove {rows : List α} {index : κ → Option Nat}
    (h : Indexes key rows index) {k : κ} {i : Nat} (hi : index k = some i) :
    lookup (swap_remove rows i) (index_after_remove key rows index k i) =
      Function.update (lookup rows index) k none := by
  have h' := h.swap_remove hi
  funext k'
  apply Option.ext
  intro x
  simp only [lookup_eq_some h', mem_swap_remove h hi]
  by_cases hk : k' = k
  · subst hk
    simp only [Function.update_self, reduceCtorEq, iff_false]
    rintro ⟨⟨_, hne⟩, heq⟩
    exact hne heq
  · rw [Function.update_of_ne hk, lookup_eq_some h]
    constructor
    · rintro ⟨⟨hx, _⟩, hkx⟩
      exact ⟨hx, hkx⟩
    · rintro ⟨hx, hkx⟩
      exact ⟨⟨hx, by rw [hkx]; exact hk⟩, hkx⟩

/-! ## The order after a removal -/

omit [DecidableEq κ] in
/-- The row at the place of a key is the only one with the key. -/
theorem Indexes.key_ne {rows : List α} {index : κ → Option Nat} (h : Indexes key rows index)
    {k : κ} {i j : Nat} (hi : index k = some i) {x : α} (hx : rows[j]? = some x) (hij : j ≠ i) :
    key x ≠ k := by
  obtain ⟨y, hy, hky⟩ := (h k i).mp hi
  intro hk
  exact hij (h.unique hx hy (by rw [hk, hky]))

/-- Without the rows of a key the other rows stay in order. -/
theorem filter_key_ne {rows : List α} {index : κ → Option Nat} (h : Indexes key rows index)
    {k : κ} {i : Nat} (hi : index k = some i) :
    rows.filter (fun x => key x ≠ k) = rows.eraseIdx i := by
  obtain ⟨x, hx, hkx⟩ := (h k i).mp hi
  obtain ⟨hlt, hget⟩ := List.getElem?_eq_some_iff.mp hx
  have hsplit : rows = rows.take i ++ x :: rows.drop (i + 1) := by
    rw [← hget, List.getElem_cons_drop, List.take_append_drop]
  have hbefore : (rows.take i).filter (fun x => key x ≠ k) = rows.take i := by
    rw [List.filter_eq_self]
    intro y hy
    obtain ⟨j, hj⟩ := List.mem_iff_getElem?.mp hy
    rw [List.getElem?_take] at hj
    split_ifs at hj with hji
    simpa using h.key_ne hi hj (by omega)
  have hafter : (rows.drop (i + 1)).filter (fun x => key x ≠ k) = rows.drop (i + 1) := by
    rw [List.filter_eq_self]
    intro y hy
    obtain ⟨j, hj⟩ := List.mem_iff_getElem?.mp hy
    rw [List.getElem?_drop] at hj
    simpa using h.key_ne hi hj (by omega)
  rw [List.eraseIdx_eq_take_drop_succ]
  conv_lhs => rw [hsplit]
  rw [List.filter_append, List.filter_cons_of_neg (by simpa using hkx), hbefore, hafter]

omit [DecidableEq κ] in
/-- A removal from the last two places moves no row past another one. -/
theorem swap_remove_eq_eraseIdx {rows : List α} {i : Nat} (hi : i < rows.length)
    (hnear : rows.length ≤ i + 2) : swap_remove rows i = rows.eraseIdx i := by
  apply List.ext_getElem?
  intro j
  rw [getElem?_swap_remove rows i j hi, List.getElem?_eraseIdx]
  by_cases hj : j + 1 < rows.length
  · rw [if_pos hj]
    by_cases hji : j = i
    · rw [if_pos hji, if_neg (by omega)]
      congr 1
      omega
    · rw [if_neg hji, if_pos (by omega)]
  · rw [if_neg hj]
    split_ifs
    · omega
    · rw [List.getElem?_eq_none (by omega)]

omit [DecidableEq κ] in
/-- No other removal keeps the order. -/
theorem near_of_map_swap_remove {rows : List α} {index : κ → Option Nat}
    (h : Indexes key rows index) {k : κ} {i : Nat} (hi : index k = some i)
    (heq : (swap_remove rows i).map key = (rows.eraseIdx i).map key) : rows.length ≤ i + 2 := by
  by_contra hfar
  have hat := congrArg (fun keys => keys[i]?) heq
  simp only [List.getElem?_map, getElem?_swap_remove rows i i (h.lt hi), List.getElem?_eraseIdx,
    Nat.lt_irrefl, if_false, if_true] at hat
  rw [if_pos (by omega), List.getElem?_eq_getElem (by omega), List.getElem?_eq_getElem (by omega)]
    at hat
  have := h.unique (List.getElem?_eq_getElem (by omega)) (List.getElem?_eq_getElem (by omega))
    (Option.some.inj hat)
  omega

end keyed_rows
