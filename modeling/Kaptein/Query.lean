-- A query of the data plane (`MemPlane::query`). It takes the state lock once
-- to sort and filter the places of the rows, and once more to copy the rows of
-- the window. Writers may run in between.
import Kaptein.Lib.Window
import Kaptein.Subscribe
import Kaptein.Table

open runs rust_slice windows kaptein_viewmodel.table

namespace kaptein_viewmodel.mem_plane

variable (std : StableSort)

/-! ## The two critical sections -/

/-- The places of the matching rows, in the order of the query. -/
def MemPlane.query_indices (p : MemPlane) (query : Query) : List Nat :=
  let rows := p.state.rows
  let indices := sort_indices std rows (List.finRange rows.length) p.column_ids query.sort
  (filter_indices rows indices query.filter).map Fin.val

/-- `indices[start..end]`, with both ends of the window moved into the list. -/
def window (query : Query) (indices : List Nat) : List Nat :=
  let total := indices.length
  let start := min query.start total
  let end_ := max (min query.end_ total) start
  (indices.take end_).drop start

/-- `state.rows[i].clone()` for each index, `none` for a panic. -/
def MemPlane.rows_at (p : MemPlane) (indices : List Nat) : Option (List Row) :=
  indices.mapM fun i => p.state.rows[i]?

/-- A query that reads the revision in one state, the indices in a second one and
the rows in a third one. -/
def query_across (atRevision atIndices atRows : MemPlane) (query : Query) : Option Page :=
  let indices := atIndices.query_indices std query
  (atRows.rows_at (window query indices)).map fun rows =>
    { rows, total := indices.length, revision := atRevision.revision }

/-- A query that nothing comes between. -/
def MemPlane.query (p : MemPlane) (query : Query) : Option Page := query_across std p p p query

/-! ## A query alone -/

theorem query_across_eq (atRevision atIndices atRows : MemPlane) (query : Query) :
    query_across std atRevision atIndices atRows query =
      (atRows.rows_at (window query (atIndices.query_indices std query))).map fun rows =>
        { rows, total := (atIndices.query_indices std query).length,
          revision := atRevision.revision } := rfl

theorem mem_window {query : Query} {indices : List Nat} {i : Nat}
    (h : i ∈ window query indices) : i ∈ indices :=
  List.mem_of_mem_take (List.mem_of_mem_drop h)

theorem query_indices_lt (p : MemPlane) (query : Query) (i : Nat)
    (h : i ∈ p.query_indices std query) : i < p.state.rows.length := by
  obtain ⟨j, _, rfl⟩ := List.mem_map.mp h
  exact j.isLt

/-- Copying rows works exactly when each index has a row. -/
theorem rows_at_eq_none (p : MemPlane) (indices : List Nat) :
    p.rows_at indices = none ↔ ∃ i ∈ indices, p.state.rows.length ≤ i := by
  unfold MemPlane.rows_at
  induction indices with
  | nil => simp
  | cons i indices ih =>
    rw [List.mapM_cons]
    by_cases hi : i < p.state.rows.length
    · rw [List.getElem?_eq_getElem hi]
      cases hrest : indices.mapM fun i => p.state.rows[i]? with
      | none =>
        obtain ⟨j, hj, hle⟩ := ih.mp hrest
        exact ⟨fun _ => ⟨j, List.mem_cons_of_mem _ hj, hle⟩, fun _ => rfl⟩
      | some rows =>
        constructor
        · intro h
          cases h
        · rintro ⟨j, hj, hle⟩
          rcases List.mem_cons.mp hj with rfl | hj
          · omega
          · rw [ih.mpr ⟨j, hj, hle⟩] at hrest
            cases hrest
    · rw [List.getElem?_eq_none (by omega)]
      exact ⟨fun _ => ⟨i, List.mem_cons_self, by omega⟩, fun _ => rfl⟩

theorem rows_at_congr {p q : MemPlane} {indices : List Nat}
    (h : ∀ i ∈ indices, p.state.rows[i]? = q.state.rows[i]?) :
    p.rows_at indices = q.rows_at indices := by
  unfold MemPlane.rows_at
  induction indices with
  | nil => rfl
  | cons i indices ih =>
    rw [List.mapM_cons, List.mapM_cons, h i List.mem_cons_self,
      ih fun j hj => h j (List.mem_cons_of_mem _ hj)]

theorem rows_at_window_alone (p : MemPlane) (query : Query) :
    p.rows_at (window query (p.query_indices std query)) ≠ none := by
  intro hnone
  obtain ⟨i, hi, hle⟩ := (rows_at_eq_none p _).mp hnone
  have hlt := query_indices_lt std p query i (mem_window hi)
  omega

/-- A query alone gives a page: no index leaves the rows. -/
theorem query_alone_gives_a_page (p : MemPlane) (query : Query) :
    ∃ page, p.query std query = some page := by
  obtain ⟨rows, hrows⟩ := Option.ne_none_iff_exists'.mp (rows_at_window_alone std p query)
  unfold MemPlane.query
  rw [query_across_eq, hrows]
  exact ⟨_, rfl⟩

theorem window_eq_slice (query : Query) (indices : List Nat) :
    window query indices = slice indices query.start query.end_ :=
  slice_clamped indices query.start query.end_

theorem rows_at_places (p : MemPlane) (places : List (Fin p.state.rows.length)) :
    p.rows_at (places.map Fin.val) = some (places.map fun i => p.state.rows[i]) := by
  unfold MemPlane.rows_at
  induction places with
  | nil => rfl
  | cons i places ih =>
    rw [List.map_cons, List.mapM_cons, ih, List.getElem?_eq_getElem i.isLt]
    rfl

/-- All rows that answer a query, in its order. -/
def MemPlane.matching_rows (p : MemPlane) (query : Query) : List Row :=
  filter_rows (sort_rows std p.state.rows p.column_ids query.sort) query.filter

/-- A query alone gives the rows of its window and counts all that match. -/
theorem query_alone (p : MemPlane) (query : Query) :
    p.query std query = some
      { rows := slice (p.matching_rows std query) query.start query.end_
        total := (p.matching_rows std query).length
        revision := p.revision } := by
  let places := filter_indices p.state.rows
    (sort_indices std p.state.rows (List.finRange p.state.rows.length) p.column_ids query.sort)
    query.filter
  have hindices : p.query_indices std query = places.map Fin.val := rfl
  have hplaces : places.map (fun i => p.state.rows[i]) = p.matching_rows std query := by
    rw [filter_indices_rows, sort_indices_rows]
    rfl
  have hrows : p.rows_at (window query (p.query_indices std query)) =
      some (slice (p.matching_rows std query) query.start query.end_) := by
    rw [window_eq_slice, hindices, ← map_slice, rows_at_places, map_slice, hplaces]
  unfold MemPlane.query
  rw [query_across_eq, hrows, Option.map_some, hindices, List.length_map, ← hplaces,
    List.length_map]

/-- The page of a query alone. -/
def MemPlane.page (p : MemPlane) (query : Query) : Page :=
  (p.query std query).get (Option.isSome_iff_exists.mpr (query_alone_gives_a_page std p query))

theorem page_rows (p : MemPlane) (query : Query) :
    (p.page std query).rows = slice (p.matching_rows std query) query.start query.end_ := by
  simp only [MemPlane.page, query_alone, Option.get_some]

theorem page_total (p : MemPlane) (query : Query) :
    (p.page std query).total = (p.matching_rows std query).length := by
  simp only [MemPlane.page, query_alone, Option.get_some]

/-- The total counts the rows that the filter keeps. -/
theorem length_query_indices (p : MemPlane) (query : Query) :
    (p.query_indices std query).length = (filter_rows p.state.rows query.filter).length := by
  unfold MemPlane.query_indices
  rw [List.length_map]
  apply length_filter_sort_indices

theorem window_eq_nil (query : Query) (indices : List Nat) :
    window query indices = [] ↔ query.end_ ≤ query.start ∨ indices.length ≤ query.start := by
  simp only [window, List.drop_eq_nil_iff, List.length_take]
  omega

/-- The range of the query is empty, or it starts past the rows that the filter keeps. -/
def TakesNoRow (query : Query) (p : MemPlane) : Prop :=
  query.end_ ≤ query.start ∨ (filter_rows p.state.rows query.filter).length ≤ query.start

theorem takesNoRow_iff (p : MemPlane) (query : Query) :
    TakesNoRow query p ↔ window query (p.query_indices std query) = [] := by
  unfold TakesNoRow
  rw [window_eq_nil, length_query_indices]

/-! ## Pages one after another -/

/-- The rows of the pages that a frontend reads one after another, each up to its cut. -/
def MemPlane.pages (p : MemPlane) (query : Query) (start : Nat) : List Nat → List Row
  | [] => []
  | cut :: cuts =>
    (p.page std { query with start := start, end_ := cut }).rows ++ p.pages query cut cuts

theorem pages_eq_slice (p : MemPlane) (query : Query) (start : Nat) (cuts : List Nat)
    (h : (start :: cuts).Pairwise (· ≤ ·)) :
    p.pages std query start cuts =
      slice (p.matching_rows std query) start (cuts.getLastD start) := by
  induction cuts generalizing start with
  | nil =>
    rw [List.getLastD_nil]
    simp [MemPlane.pages, slice]
  | cons cut cuts ih =>
    obtain ⟨hstart, hcuts⟩ := List.pairwise_cons.mp h
    have hcut := hstart cut List.mem_cons_self
    have hlast : cut ≤ cuts.getLastD cut := by
      have hmem : cuts.getLastD cut ∈ cut :: cuts := List.getLastD_mem_cons
      rcases List.mem_cons.mp hmem with heq | hmem
      · omega
      · exact (List.pairwise_cons.mp hcuts).1 _ hmem
    have hpage : (p.page std { query with start := start, end_ := cut }).rows =
        slice (p.matching_rows std query) start cut := page_rows std p _
    rw [MemPlane.pages, ih cut hcuts, hpage, slice_append_slice _ hcut hlast, List.getLastD_cons]

theorem length_matching_rows (p : MemPlane) (query : Query) :
    (p.matching_rows std query).length = (filter_rows p.rows query.filter).length := by
  have hsort : (sort_rows std p.state.rows p.column_ids query.sort).Perm p.state.rows := by
    unfold sort_rows
    cases comparator p.column_ids query.sort with
    | none => exact List.Perm.refl _
    | some cmp => exact std.perm _ _
  exact (filter_rows_perm hsort query.filter).length_eq

/-- A query by places answers as the plain one by rows: the window of the sorted and
filtered rows, and how many rows match. Pages that follow each other up to that
total give every such row once, in order. -/
theorem query_answers_as_the_plain_one (p : MemPlane) (query : Query) :
    p.query std query = some
      { rows := slice (filter_rows (sort_rows std p.rows p.column_ids query.sort) query.filter)
          query.start query.end_
        total := (filter_rows p.rows query.filter).length
        revision := p.revision } ∧
    ∀ cuts, (0 :: cuts).Pairwise (· ≤ ·) →
      cuts.getLastD 0 = (filter_rows p.rows query.filter).length →
      p.pages std query 0 cuts =
        filter_rows (sort_rows std p.rows p.column_ids query.sort) query.filter := by
  constructor
  · rw [query_alone, length_matching_rows]
    rfl
  · intro cuts hcuts htotal
    rw [pages_eq_slice std p query 0 cuts hcuts, htotal, ← length_matching_rows std]
    exact slice_all _ (Nat.le_refl _)

/-- Two pages of three rows, the second one longer than the first. -/
theorem two_pages_of_three_rows :
    let p := (MemPlane.new ["name"]).run
      [.upsert { id := "a", cells := [.Text "x"] }, .upsert { id := "b", cells := [] },
        .upsert { id := "c", cells := [.Text "y"] }]
    let query : Query :=
      { start := 2, end_ := 1, sort := some { column := "size", descending := true }
        filter := none }
    p.pages mergeSort query 0 [1, 3] = p.rows := by
  intro p query
  exact (query_answers_as_the_plain_one mergeSort p query).2 [1, 3] (by decide) rfl

/-! ## A query beside writers -/

/-- A critical section of a writer. -/
inductive Section where
  | Write (w : Write)
  | Broadcast (patch : RowPatch)
  deriving DecidableEq

def MemPlane.section_ (p : MemPlane) : Section → MemPlane
  | .Write w => (p.write_state w).1
  | .Broadcast patch => p.broadcast patch

def MemPlane.sections (p : MemPlane) (ss : List Section) : MemPlane :=
  ss.foldl MemPlane.section_ p

theorem sections_append (p : MemPlane) (a b : List Section) :
    p.sections (a ++ b) = (p.sections a).sections b := by
  simp [MemPlane.sections, List.foldl_append]

/-- At some moment between the two locks, the plane gives the query the indices
it has taken, and holds at the places of the window the rows it will copy. -/
def Settled (query : Query) (atIndices : MemPlane) (between : List Section) : Prop :=
  ∃ before after, between = before ++ after ∧
    let s := atIndices.sections before
    let indices := atIndices.query_indices std query
    s.query_indices std query = indices ∧
      ∀ i ∈ window query indices,
        s.state.rows[i]? = (atIndices.sections between).state.rows[i]?

/-- A write that adds a row or finds nothing to remove. -/
def AddsOnly (p : MemPlane) : Section → Prop
  | .Write (.upsert row) => p.row_map row.id = none
  | .Write (.remove id) => p.row_map id = none
  | .Broadcast _ => True

theorem row_map_eq_none (s : State) (id : RowId) : s.row_map id = none ↔ s.index id = none := by
  unfold State.row_map keyed_rows.lookup
  cases hi : s.index id with
  | none => simp
  | some i =>
    obtain ⟨x, hx, _⟩ := (s.indexed id i).mp hi
    simp [hx]

theorem adds_only_section (p : MemPlane) (sec : Section) (h : AddsOnly p sec) :
    p.state.rows <+: (p.section_ sec).state.rows := by
  cases sec with
  | Broadcast patch => exact List.prefix_rfl
  | Write w =>
    cases w with
    | upsert row =>
      have hi := (row_map_eq_none p.state row.id).mp h
      simp only [MemPlane.section_, MemPlane.write_state, MemPlane.upsert_state, MemPlane.commit]
      unfold State.upsert
      split
      · rename_i i hsome
        rw [hi] at hsome
        cases hsome
      · exact List.prefix_append _ _
    | remove id =>
      have hn := (p.state.remove_eq_none id).mpr h
      simp only [MemPlane.section_, MemPlane.write_state, MemPlane.remove_state, hn]
      exact List.prefix_rfl

theorem adds_only_sections (p : MemPlane) (ss : List Section)
    (h : Guarded (fun p sec => some (p.section_ sec)) AddsOnly p ss) :
    p.state.rows <+: (p.sections ss).state.rows := by
  induction ss generalizing p with
  | nil => exact List.prefix_rfl
  | cons sec ss ih =>
    obtain ⟨hsec, hss⟩ := h _ rfl
    exact (adds_only_section p sec hsec).trans (ih _ hss)

/-- Added rows settle every query: the rows of the window stay where they are. -/
theorem settled_of_adds_only (query : Query) (p : MemPlane) (between : List Section)
    (h : Guarded (fun p sec => some (p.section_ sec)) AddsOnly p between) :
    Settled std query p between := by
  refine ⟨[], between, rfl, rfl, ?_⟩
  intro i hi
  have hlt := query_indices_lt std p query i (mem_window hi)
  obtain ⟨added, hadded⟩ := adds_only_sections p between h
  rw [← hadded, List.getElem?_append_left hlt]
  rfl

/-- The query does not panic, and its page has the rows and the total of the same
query alone in a state of the call. -/
def AloneDuring (p : MemPlane) (early between : List Section) (query : Query) : Prop :=
  ∃ page, query_across std p (p.sections early) (p.sections (early ++ between)) query =
      some page ∧
    ∃ during rest, early ++ between = during ++ rest ∧ ∃ alone,
      (p.sections during).query std query = some alone ∧
        page.rows = alone.rows ∧ page.total = alone.total

theorem alone_of_settled (p : MemPlane) (early between : List Section) (query : Query)
    (h : Settled std query (p.sections early) between) :
    AloneDuring std p early between query := by
  obtain ⟨before, after, hsplit, hindices, hrows⟩ := h
  obtain ⟨alone, halone⟩ :=
    query_alone_gives_a_page std ((p.sections early).sections before) query
  have hcopy := rows_at_congr hrows
  have hquery := halone
  unfold MemPlane.query at hquery
  rw [query_across_eq, hindices, hcopy] at hquery
  obtain ⟨rows, hr, hpage⟩ := Option.map_eq_some_iff.mp hquery
  have hacross : query_across std p (p.sections early) (p.sections (early ++ between)) query =
      some { rows, total := ((p.sections early).query_indices std query).length,
             revision := p.revision } := by
    rw [query_across_eq, sections_append, hr]
    rfl
  refine ⟨_, hacross, early ++ before, after, ?_, alone, ?_⟩
  · rw [hsplit, List.append_assoc]
  · rw [sections_append]
    refine ⟨halone, ?_⟩
    rw [← hpage]
    exact ⟨rfl, rfl⟩

/-! ## Writers that take every row away -/

theorem remove_section_row_map (p : MemPlane) (id : RowId) :
    (p.section_ (.Write (.remove id))).row_map = Function.update p.row_map id none :=
  p.remove_state_row_map id

theorem row_map_after_removals (p : MemPlane) (ids : List RowId) (id : RowId) :
    (p.sections (ids.map fun k => .Write (.remove k))).row_map id =
      if id ∈ ids then none else p.row_map id := by
  induction ids generalizing p with
  | nil => rfl
  | cons k ids ih =>
    change ((p.section_ (.Write (.remove k))).sections _).row_map id = _
    rw [ih, remove_section_row_map]
    by_cases hk : id = k
    · simp [hk]
    · simp [hk]

theorem exists_sections_emptying (p : MemPlane) : ∃ ss, (p.sections ss).state.rows = [] := by
  let ids := p.state.rows.map Row.id
  refine ⟨ids.map fun k => .Write (.remove k), ?_⟩
  rw [List.eq_nil_iff_forall_not_mem]
  intro row hrow
  have hmap := (State.mem_rows _ row).mp hrow
  change MemPlane.row_map _ row.id = some row at hmap
  rw [row_map_after_removals] at hmap
  split at hmap
  · cases hmap
  · rename_i hid
    exact hid (List.mem_map_of_mem ((p.state.mem_rows row).mpr hmap))

/-- A query that takes a row panics beside writers that remove all of them. -/
theorem takesNoRow_of_alone (p : MemPlane) (early : List Section) (query : Query)
    (h : ∀ between, AloneDuring std p early between query) :
    TakesNoRow query (p.sections early) := by
  obtain ⟨between, hempty⟩ := exists_sections_emptying (p.sections early)
  obtain ⟨page, hpage, _⟩ := h between
  rw [takesNoRow_iff std, List.eq_nil_iff_forall_not_mem]
  intro i hi
  have hnone : (p.sections (early ++ between)).rows_at
      (window query ((p.sections early).query_indices std query)) = none := by
    rw [rows_at_eq_none, sections_append, hempty]
    exact ⟨i, hi, Nat.zero_le i⟩
  rw [query_across_eq, hnone] at hpage
  cases hpage

theorem settled_of_takesNoRow (p : MemPlane) (between : List Section) (query : Query)
    (h : TakesNoRow query p) : Settled std query p between := by
  refine ⟨[], between, rfl, rfl, ?_⟩
  rw [(takesNoRow_iff std p query).mp h]
  intro i hi
  cases hi

/-- Whatever comes between its two locks, a query answers as one alone exactly
when it takes no row. One that takes rows panics exactly beside writers that leave
no row at a place of its window, and answers as one alone beside writers that
leave it settled. -/
theorem query_is_atomic_iff_it_takes_no_row (p : MemPlane) (early : List Section)
    (query : Query) :
    ((∀ between, AloneDuring std p early between query) ↔ TakesNoRow query (p.sections early)) ∧
    ∀ between,
      (query_across std p (p.sections early) (p.sections (early ++ between)) query = none ↔
        ∃ i ∈ window query ((p.sections early).query_indices std query),
          (p.sections (early ++ between)).state.rows.length ≤ i) ∧
      (Settled std query (p.sections early) between → AloneDuring std p early between query) := by
  refine ⟨⟨takesNoRow_of_alone std p early query, ?_⟩, ?_⟩
  · intro h between
    exact alone_of_settled std p early between query (settled_of_takesNoRow std _ between query h)
  · intro between
    refine ⟨?_, alone_of_settled std p early between query⟩
    rw [query_across_eq, Option.map_eq_none_iff, rows_at_eq_none]

/-- A query of one row beside a writer that adds a second one. -/
theorem query_beside_an_addition :
    let p := (MemPlane.new []).run [.upsert { id := "a", cells := [] }]
    let between : List Section := [.Write (.upsert { id := "b", cells := [] })]
    let query : Query := { start := 0, end_ := 10, sort := none, filter := none }
    AloneDuring mergeSort p [] between query := by
  intro p between query
  refine ((query_is_atomic_iff_it_takes_no_row mergeSort p [] query).2 between).2 ?_
  apply settled_of_adds_only
  intro t ht
  cases ht
  exact ⟨rfl, trivial⟩

/-- A removal between the two locks: the second index has no row any more. -/
theorem a_removal_between_the_two_locks_panics :
    let p := (MemPlane.new []).run
      [.upsert { id := "a", cells := [] }, .upsert { id := "b", cells := [] }]
    let between : List Section := [.Write (.remove "b")]
    let query : Query := { start := 0, end_ := 10, sort := none, filter := none }
    query_across mergeSort p p (p.sections between) query = none ∧
      ¬ AloneDuring mergeSort p [] between query := by
  intro p between query
  have hnone : query_across mergeSort p p (p.sections between) query = none := rfl
  refine ⟨hnone, ?_⟩
  rintro ⟨page, hpage, _⟩
  change query_across mergeSort p p (p.sections between) query = some page at hpage
  rw [hnone] at hpage
  cases hpage

end kaptein_viewmodel.mem_plane
