-- The order of the cells of a column (`cmp_cells`). Two numbers and two
-- timestamps compare by value and everything else compares by its text, and the
-- two ways do not agree: 9 is less than 10 and "10" is less than "9".
import Kaptein.Table

open rust_slice kaptein_viewmodel.lens

namespace kaptein_viewmodel.table

/-! ## The two ways to compare -/

/-- Both are numbers or both are timestamps. -/
def by_value : Cell → Cell → Bool
  | .Number _, .Number _ => true
  | .Timestamp _, .Timestamp _ => true
  | _, _ => false

/-- The value of a number or of a timestamp. -/
def value : Cell → Int
  | .Number v => v
  | .Timestamp millis => millis
  | _ => 0

theorem cmp_cells_eq (a b : Cell) :
    cmp_cells a b =
      if by_value a b then compare (value a) (value b)
      else compare (cell_text a) (cell_text b) := by
  cases a <;> cases b <;> rfl

theorem by_value_comm (a b : Cell) : by_value a b = by_value b a := by
  cases a <;> cases b <;> rfl

theorem by_value_trans {a b c : Cell} (hab : by_value a b = true) (hbc : by_value b c = true) :
    by_value a c = true := by
  cases a <;> cases b <;> cases c <;> simp_all [by_value]

/-- Cells that compare by value and have one value have one text. -/
theorem cell_text_of_value {a b : Cell} (hab : by_value a b = true) (hv : value a = value b) :
    cell_text a = cell_text b := by
  cases a <;> cases b <;> simp_all [by_value, value, cell_text]

theorem isLE_by_value {a b : Cell} (h : by_value a b = true) :
    (cmp_cells a b).isLE = true ↔ value a ≤ value b := by
  rw [cmp_cells_eq, if_pos h, Std.isLE_compare]

/-- The order of the texts. -/
def text_le (a b : Cell) : Prop := (compare (cell_text a) (cell_text b)).isLE = true

theorem isLE_by_text {a b : Cell} (h : by_value a b = false) :
    (cmp_cells a b).isLE = true ↔ text_le a b := by
  rw [cmp_cells_eq, h, if_neg (by simp)]
  rfl

theorem text_le_trans {a b c : Cell} (hab : text_le a b) (hbc : text_le b c) : text_le a c :=
  Std.TransCmp.isLE_trans hab hbc

theorem text_le_total (a b : Cell) : text_le a b ∨ text_le b a := by
  simpa [text_le] using isLE_total compare (cell_text a) (cell_text b)

theorem text_le_of_eq {a b : Cell} (h : cell_text a = cell_text b) : text_le a b := by
  unfold text_le
  rw [h, Std.compare_self]
  rfl

/-- The second comparison is always the reverse of the first one. -/
theorem cmp_cells_swap (a b : Cell) : cmp_cells b a = (cmp_cells a b).swap := by
  rw [cmp_cells_eq, cmp_cells_eq, by_value_comm]
  split_ifs
  · exact Std.OrientedCmp.eq_swap
  · exact Std.OrientedCmp.eq_swap

/-! ## The columns on which the order is one -/

/-- A cell of another kind stands, by its text, between two cells that compare by
value and whose texts stand the other way round. -/
structure Between (x t y : Cell) : Prop where
  by_value : by_value x y = true
  other : table.by_value x t = false
  less : value x < value y
  above : text_le y t
  below : text_le t x

def NoneBetween (cells : List Cell) : Prop :=
  ∀ x ∈ cells, ∀ t ∈ cells, ∀ y ∈ cells, ¬ Between x t y

/-- With a cell between them the order goes round in a circle. -/
theorem between_breaks {x t y : Cell} (h : Between x t y) :
    (cmp_cells y t).isLE = true ∧ (cmp_cells t x).isLE = true ∧ (cmp_cells y x).isLE = false := by
  have hyx : by_value y x = true := by
    rw [by_value_comm]
    exact h.by_value
  have hyt : by_value y t = false := by
    rw [← Bool.not_eq_true]
    intro hyt
    have := by_value_trans h.by_value hyt
    rw [h.other] at this
    cases this
  have htx : by_value t x = false := by
    rw [by_value_comm]
    exact h.other
  refine ⟨(isLE_by_text hyt).mpr h.above, (isLE_by_text htx).mpr h.below, ?_⟩
  rw [← Bool.not_eq_true, isLE_by_value hyx]
  have := h.less
  omega

/-- Two cells whose values and texts stand the other way round, where nothing may
stand between them. -/
theorem text_le_of_value_le {cells : List Cell} (hn : NoneBetween cells) {x y t : Cell}
    (hx : x ∈ cells) (hy : y ∈ cells) (ht : t ∈ cells) (hxy : by_value x y = true)
    (hxt : by_value x t = false) (hle : value x ≤ value y) :
    (text_le y t → text_le x t) ∧ (text_le t x → text_le t y) := by
  rcases Int.lt_or_eq_of_le hle with hlt | heq
  · constructor
    · intro hyt
      rcases text_le_total x t with h | h
      · exact h
      · exact absurd ⟨hxy, hxt, hlt, hyt, h⟩ (hn x hx t ht y hy)
    · intro htx
      rcases text_le_total t y with h | h
      · exact h
      · exact absurd ⟨hxy, hxt, hlt, h, htx⟩ (hn x hx t ht y hy)
  · have htext := cell_text_of_value hxy heq
    constructor
    · exact text_le_trans (text_le_of_eq htext)
    · intro htx
      exact text_le_trans htx (text_le_of_eq htext)

theorem cmp_cells_trans {cells : List Cell} (hn : NoneBetween cells) {a b c : Cell}
    (ha : a ∈ cells) (hb : b ∈ cells) (hc : c ∈ cells) (hab : (cmp_cells a b).isLE = true)
    (hbc : (cmp_cells b c).isLE = true) : (cmp_cells a c).isLE = true := by
  cases vab : by_value a b with
  | true =>
    cases vbc : by_value b c with
    | true =>
      rw [isLE_by_value vab] at hab
      rw [isLE_by_value vbc] at hbc
      rw [isLE_by_value (by_value_trans vab vbc)]
      omega
    | false =>
      have vac : by_value a c = false := by
        rw [← Bool.not_eq_true]
        intro vac
        rw [by_value_comm] at vab
        rw [by_value_trans vab vac] at vbc
        cases vbc
      rw [isLE_by_value vab] at hab
      rw [isLE_by_text vbc] at hbc
      rw [isLE_by_text vac]
      exact (text_le_of_value_le hn ha hb hc vab vac hab).1 hbc
  | false =>
    rw [isLE_by_text vab] at hab
    cases vbc : by_value b c with
    | true =>
      have vac : by_value a c = false := by
        rw [← Bool.not_eq_true]
        intro vac
        rw [by_value_comm] at vbc
        rw [by_value_trans vac vbc] at vab
        cases vab
      rw [by_value_comm] at vab
      rw [isLE_by_value vbc] at hbc
      rw [isLE_by_text vac]
      exact (text_le_of_value_le hn hb hc ha vbc vab hbc).2 hab
    | false =>
      rw [isLE_by_text vbc] at hbc
      have hac := text_le_trans hab hbc
      cases vac : by_value a c with
      | false => exact (isLE_by_text vac).mpr hac
      | true =>
        rw [isLE_by_value vac]
        by_contra hlt
        rw [by_value_comm] at vac vbc
        exact hn c hc b hb a ha ⟨vac, vbc, by omega, hab, hbc⟩

/-- The order of cells is a total preorder on a column exactly where no cell stands
between two others by its text that compare by value. -/
theorem totalPreorderOn_cells_iff (cells : List Cell) :
    TotalPreorderOn cmp_cells cells ↔ NoneBetween cells := by
  constructor
  · intro h x hx t ht y hy hb
    obtain ⟨hyt, htx, hyx⟩ := between_breaks hb
    rw [h.trans y hy t ht x hx hyt htx] at hyx
    cases hyx
  · intro hn
    exact ⟨fun a _ b _ => cmp_cells_swap a b, fun a ha b hb c hc => cmp_cells_trans hn ha hb hc⟩

/-! ## Rows in the order of a column -/

/-- The cells that a sort reads. A row may be too short to have one. -/
def column_cells (rows : List Row) (column_ids : List String) (sort : Option SortSpec) :
    List Cell :=
  match sort.bind fun sort => column_ids.findIdx? (· == sort.column) with
  | some idx => rows.filterMap fun row => row.cells[idx]?
  | none => []

theorem cmp_rows_swap (idx : Nat) (a b : Row) :
    cmp_rows idx false b a = (cmp_rows idx false a b).swap := by
  simp only [cmp_rows, Bool.false_eq_true, if_false]
  cases a.cells[idx]? <;> cases b.cells[idx]?
  · rfl
  · rfl
  · rfl
  · exact cmp_cells_swap _ _

/-- Rows are in order where their cells are. -/
theorem totalPreorderOn_rows {rows : List Row} {idx : Nat}
    (h : TotalPreorderOn cmp_cells (rows.filterMap fun row => row.cells[idx]?))
    (descending : Bool) : TotalPreorderOn (cmp_rows idx descending) rows := by
  have hmem : ∀ row ∈ rows, ∀ c, row.cells[idx]? = some c →
      c ∈ rows.filterMap fun row => row.cells[idx]? := by
    intro row hrow c hc
    exact List.mem_filterMap.mpr ⟨row, hrow, hc⟩
  have hup : TotalPreorderOn (cmp_rows idx false) rows := by
    refine ⟨fun a _ b _ => cmp_rows_swap idx a b, ?_⟩
    intro a ha b hb c hc hab hbc
    simp only [cmp_rows, Bool.false_eq_true, if_false] at hab hbc ⊢
    cases hx : a.cells[idx]? with
    | none => cases c.cells[idx]? <;> rfl
    | some x =>
      cases hy : b.cells[idx]? with
      | none => simp [hx, hy] at hab
      | some y =>
        cases hz : c.cells[idx]? with
        | none => simp [hy, hz] at hbc
        | some z =>
          simp only [hx, hy, hz] at hab hbc ⊢
          exact h.trans x (hmem a ha x hx) y (hmem b hb y hy) z (hmem c hc z hz) hab hbc
  cases descending with
  | false => exact hup
  | true => exact hup.reverse

variable (std : StableSort)

/-- The cells of the column are in a total preorder, and both sorts give each row no
earlier than a row that compares less. -/
structure OrdersColumn (rows : List Row) (column_ids : List String) (sort : Option SortSpec) :
    Prop where
  total : TotalPreorderOn cmp_cells (column_cells rows column_ids sort)
  sorted_rows : ∀ cmp, comparator column_ids sort = some cmp →
    (sort_rows std rows column_ids sort).Pairwise fun a b => (cmp a b).isLE
  sorted_indices : ∀ cmp, comparator column_ids sort = some cmp →
    (sort_indices std rows (List.finRange rows.length) column_ids sort).Pairwise
      fun i j => (cmp (rows.get i) (rows.get j)).isLE

theorem sort_rows_sorted {rows : List Row} {column_ids : List String} {sort : Option SortSpec}
    (h : TotalPreorderOn cmp_cells (column_cells rows column_ids sort))
    {cmp : Row → Row → Ordering} (hcmp : comparator column_ids sort = some cmp) :
    (sort_rows std rows column_ids sort).Pairwise fun a b => (cmp a b).isLE := by
  unfold sort_rows
  rw [hcmp]
  cases sort with
  | none => cases hcmp
  | some sort =>
    obtain ⟨idx, hidx, rfl⟩ := Option.map_eq_some_iff.mp hcmp
    simp only [column_cells, Option.bind_some, hidx] at h
    exact std.sorted_on (totalPreorderOn_rows h sort.descending)

/-- The order of cells is a total preorder on some cells exactly where none of them
stands between two others. Where that holds of the cells of a column, both sorts put
its rows in order. -/
theorem cells_are_ordered_iff :
    (∀ cells, TotalPreorderOn cmp_cells cells ↔ NoneBetween cells) ∧
    ∀ rows column_ids sort, OrdersColumn std rows column_ids sort ↔
      NoneBetween (column_cells rows column_ids sort) := by
  refine ⟨totalPreorderOn_cells_iff, ?_⟩
  intro rows column_ids sort
  rw [← totalPreorderOn_cells_iff]
  constructor
  · exact OrdersColumn.total
  · intro h
    refine ⟨h, fun cmp hcmp => sort_rows_sorted std h hcmp, ?_⟩
    intro cmp hcmp
    have hrows := sort_rows_sorted std h hcmp
    rw [← sort_indices_rows, List.pairwise_map] at hrows
    exact hrows

/-- A port that is a number in two objects and a string in a third one. -/
theorem a_column_in_no_order :
    let rows : List Row := [⟨"a", [.Number 9]⟩, ⟨"b", [.Text "5"]⟩, ⟨"c", [.Number 10]⟩]
    let sort : Option SortSpec := some { column := "port", descending := false }
    (∀ float : serde_json.FloatText,
      @cell_for_value float .Number (some (.number (.PosInt 10 (by decide)))) = .Number 10 ∧
        @cell_for_value float .Number (some (.string "5")) = .Text "5") ∧
      cmp_cells (.Number 10) (.Text "5") = .lt ∧
      cmp_cells (.Text "5") (.Number 9) = .lt ∧
      cmp_cells (.Number 10) (.Number 9) = .gt ∧
      ∀ std : StableSort, ¬ OrdersColumn std rows ["port"] sort ∧
        ¬ (sort_rows std rows ["port"] sort).Pairwise
          fun a b => (cmp_rows 0 false a b).isLE := by
  intro rows sort
  have h10 : cmp_cells (.Number 10) (.Text "5") = .lt := by decide +kernel
  have h5 : cmp_cells (.Text "5") (.Number 9) = .lt := by decide +kernel
  have h9 : cmp_cells (.Number 10) (.Number 9) = .gt := by decide +kernel
  refine ⟨fun _ => ⟨rfl, rfl⟩, h10, h5, h9, ?_⟩
  intro std
  constructor
  · intro h
    have hle := h.total.trans (.Number 10) (by decide) (.Text "5") (by decide) (.Number 9)
      (by decide) (by rw [h10]; rfl) (by rw [h5]; rfl)
    rw [h9] at hle
    cases hle
  · intro hsorted
    have hperm : (sort_rows std rows ["port"] sort).Perm rows := std.perm _ _
    -- no row of the three may stand first
    have hno : ∀ a ∈ rows, ∃ b ∈ rows, b ≠ a ∧ ¬ (cmp_rows 0 false a b).isLE = true := by
      decide +kernel
    cases hl : sort_rows std rows ["port"] sort with
    | nil =>
      rw [hl] at hperm
      exact absurd hperm.symm.eq_nil (List.cons_ne_nil _ _)
    | cons first rest =>
      rw [hl] at hperm hsorted
      obtain ⟨b, hb, hne, hgt⟩ := hno first (hperm.subset List.mem_cons_self)
      rcases List.mem_cons.mp (hperm.symm.subset hb) with heq | hrest
      · exact hne heq
      · exact hgt (List.rel_of_pairwise_cons hsorted hrest)

end kaptein_viewmodel.table
