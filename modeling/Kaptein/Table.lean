-- The order and the filter of a table (`table.rs`), on rows and on their places.
import Kaptein.Lens
import Kaptein.Lib.StableSort

open rust_str rust_slice kaptein_viewmodel.lens

namespace kaptein_viewmodel.table

def cell_text : Cell → String
  | .Text value => value
  | .Number value => toString value
  | .Timestamp millis => toString millis
  | .Status _ label_key => label_key
  | .Redacted => REDACTED_MARKER

def cmp_cells (a b : Cell) : Ordering :=
  match a, b with
  | .Number x, .Number y => compare x y
  | .Timestamp x, .Timestamp y => compare x y
  | .Text x, .Text y => compare x y
  | .Status _ x, .Status _ y => compare x y
  | _, _ => compare (cell_text a) (cell_text b)

/-! ## The filter -/

/-- The needle of a filter, or `none` where the filter keeps all rows. -/
def needle_of (filter : Option Filter) : Option String :=
  match filter with
  | some filter =>
    let needle := to_ascii_lowercase (trim filter.expression)
    if needle = "" then none else some needle
  | none => none

/-- The closure of both filters: some cell shows the needle. -/
def row_matches (needle : String) (row : Row) : Bool :=
  row.cells.any fun c => contains (to_ascii_lowercase (cell_text c)) needle

def filter_rows (rows : List Row) (filter : Option Filter) : List Row :=
  match needle_of filter with
  | some needle => rows.filter (row_matches needle)
  | none => rows

/-- The places are places of the rows, so `rows[i]` is there. -/
def filter_indices (rows : List Row) (indices : List (Fin rows.length)) (filter : Option Filter) :
    List (Fin rows.length) :=
  match needle_of filter with
  | some needle => indices.filter fun i => row_matches needle rows[i]
  | none => indices

/-! ## The order -/

/-- The closure of both sorts: a row without the cell comes first. -/
def cmp_rows (idx : Nat) (descending : Bool) (a b : Row) : Ordering :=
  let ord := match a.cells[idx]?, b.cells[idx]? with
    | some x, some y => cmp_cells x y
    | some _, none => .gt
    | none, some _ => .lt
    | none, none => .eq
  if descending then ord.swap else ord

/-- The comparator of a sort, or `none` where the order stays as it is. -/
def comparator (column_ids : List String) (sort : Option SortSpec) :
    Option (Row → Row → Ordering) :=
  match sort with
  | some sort =>
    (column_ids.findIdx? (· == sort.column)).map fun idx => cmp_rows idx sort.descending
  | none => none

variable (std : StableSort)

def sort_rows (rows : List Row) (column_ids : List String) (sort : Option SortSpec) : List Row :=
  match comparator column_ids sort with
  | some cmp => std.sort_by cmp rows
  | none => rows

def sort_indices (rows : List Row) (indices : List (Fin rows.length)) (column_ids : List String)
    (sort : Option SortSpec) : List (Fin rows.length) :=
  match comparator column_ids sort with
  | some cmp => std.sort_by (fun a b => cmp rows[a] rows[b]) indices
  | none => indices

/-! ## The places and the rows -/

/-- To filter the places is to filter the rows at them. -/
theorem filter_indices_rows (rows : List Row) (indices : List (Fin rows.length))
    (filter : Option Filter) :
    (filter_indices rows indices filter).map (fun i => rows[i]) =
      filter_rows (indices.map fun i => rows[i]) filter := by
  unfold filter_indices filter_rows
  cases needle_of filter with
  | none => rfl
  | some needle => simp only [List.filter_map, Function.comp_def]

theorem filter_rows_perm {a b : List Row} (h : a.Perm b) (filter : Option Filter) :
    (filter_rows a filter).Perm (filter_rows b filter) := by
  unfold filter_rows
  cases needle_of filter with
  | none => exact h
  | some needle => exact h.filter _

theorem sort_indices_perm (rows : List Row) (indices : List (Fin rows.length))
    (column_ids : List String) (sort : Option SortSpec) :
    (sort_indices std rows indices column_ids sort).Perm indices := by
  unfold sort_indices
  cases comparator column_ids sort with
  | none => exact List.Perm.refl indices
  | some cmp => exact std.perm _ indices

/-- To sort the places is to sort the rows at them. -/
theorem sort_indices_rows (rows : List Row) (column_ids : List String) (sort : Option SortSpec) :
    (sort_indices std rows (List.finRange rows.length) column_ids sort).map (fun i => rows[i]) =
      sort_rows std rows column_ids sort := by
  have hrows : (List.finRange rows.length).map (fun i => rows[i]) = rows := by
    simp
  unfold sort_indices sort_rows
  cases comparator column_ids sort with
  | none => exact hrows
  | some cmp =>
    rw [std.map (fun i : Fin rows.length => rows[i]) cmp, hrows]

/-- The sort changes the order of the places alone: the filter keeps as many of
them as it keeps rows. -/
theorem length_filter_sort_indices (rows : List Row) (column_ids : List String)
    (sort : Option SortSpec) (filter : Option Filter) :
    (filter_indices rows
      (sort_indices std rows (List.finRange rows.length) column_ids sort) filter).length =
        (filter_rows rows filter).length := by
  have hrows : (List.finRange rows.length).map (fun i => rows[i]) = rows := by
    simp
  have hsort := (sort_indices_perm std rows (List.finRange rows.length) column_ids sort).map
    fun i => rows[i]
  rw [hrows] at hsort
  rw [← List.length_map (fun i : Fin rows.length => rows[i]), filter_indices_rows]
  exact (filter_rows_perm hsort filter).length_eq

end kaptein_viewmodel.table
