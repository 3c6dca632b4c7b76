-- The window of the table and its cursor. Every key of the table moves the cursor,
-- fetches the window and only then clamps the two, so a window that does not yet
-- hold the cursor is fetched at the wrong place.
import Kaptein.TuiLoop

open runs rust_slice windows kaptein_viewmodel kaptein_viewmodel.table kaptein_viewmodel.mem_plane
  kaptein_viewmodel.fuzzy

namespace kaptein_tui

/-! ## The clamp -/

theorem clamp_viewport_framed (total selected scroll page_height : Nat) (ht : 0 < total)
    (hp : 0 < page_height) :
    Framed total (clamp_viewport total selected scroll page_height).1
      (clamp_viewport total selected scroll page_height).2 page_height := by
  unfold clamp_viewport
  rw [if_neg (by omega)]
  simp only
  split_ifs
  · exact ⟨by omega, by omega, by omega⟩
  · exact ⟨by omega, by omega, by omega⟩
  · exact ⟨by omega, by omega, by omega⟩

/-- The clamp leaves a window alone that holds the selection. -/
theorem clamp_viewport_eq (total selected scroll page_height : Nat) (ht : 0 < total)
    (ha : scroll ≤ min selected (total - 1))
    (hb : min selected (total - 1) < scroll + page_height) :
    clamp_viewport total selected scroll page_height = (min selected (total - 1), scroll) := by
  unfold clamp_viewport
  rw [if_neg (by omega)]
  simp only
  rw [show min scroll (total - 1) = scroll by omega, if_neg (by omega), if_neg (by omega)]

/-- The clamp moves every other window. -/
theorem clamp_viewport_moves (total selected scroll page_height : Nat) (ht : 0 < total)
    (hs : (clamp_viewport total selected scroll page_height).2 = scroll)
    (hp : 0 < page_height) :
    scroll ≤ min selected (total - 1) ∧ min selected (total - 1) < scroll + page_height := by
  unfold clamp_viewport at hs
  rw [if_neg (by omega)] at hs
  simp only at hs
  split_ifs at hs <;> simp only at hs <;> omega

/-! ## The table mode -/

/-- The plane is empty, or the window holds the cursor once the cursor is moved
into the rows of the plane. -/
def AimsInside (s : State) : Prop :=
  s.plane.rows.length = 0 ∨
    s.scroll ≤ min s.selected (s.plane.rows.length - 1) ∧
      min s.selected (s.plane.rows.length - 1) < s.scroll + s.page_height

/-- The table is at hand: no palette, no jump and no help over it. Every frame
has at least one line. -/
structure Normal (s : State) : Prop where
  palette : s.palette_query = none
  jump : s.jump_query = none
  help : s.help = false
  height : 0 < s.page_height

theorem target_row_normal (s : State) (h : s.jump_query = none) :
    s.target_row = s.rows[s.selected - s.scroll]? := by
  simp [State.target_row, selected_row, h]

section

variable (std : StableSort) [TimestampText]

/-! ## All rows of a table, in its order -/

def sorted_table (plane : MemPlane) (kind : Kind) (sort_key : Nat) (descending : Bool) :
    List TableRow :=
  (sort_rows std plane.rows plane.column_ids
    (some (sort_spec plane sort_key descending))).map (table_row kind)

def State.table (s : State) : List TableRow :=
  sorted_table std s.plane s.kind s.sort_key s.sort_descending

/-- A query shows a window of the table and counts its rows. -/
theorem query_plane_eq (plane : MemPlane) (kind : Kind) (sort_key : Nat) (descending : Bool)
    (start end_ : Nat) :
    query_plane std plane kind sort_key descending start end_ =
      (slice (sorted_table std plane kind sort_key descending) start end_,
        (sorted_table std plane kind sort_key descending).length) := by
  unfold query_plane sorted_table
  simp only [page_rows, page_total, map_slice, List.length_map]
  rfl

theorem State.query_eq (s : State) (start end_ : Nat) :
    s.query std start end_ = (slice (s.table std) start end_, (s.table std).length) :=
  query_plane_eq std s.plane s.kind s.sort_key s.sort_descending start end_

/-- The sort keeps every row of the plane. -/
theorem sorted_table_perm (plane : MemPlane) (kind : Kind) (sort_key : Nat) (descending : Bool) :
    (sorted_table std plane kind sort_key descending).Perm (plane.rows.map (table_row kind)) := by
  unfold sorted_table sort_rows
  apply List.Perm.map
  cases comparator plane.column_ids (some (sort_spec plane sort_key descending)) with
  | none => exact .refl _
  | some cmp => exact std.perm cmp plane.rows

theorem length_sorted_table (plane : MemPlane) (kind : Kind) (sort_key : Nat)
    (descending : Bool) :
    (sorted_table std plane kind sort_key descending).length = plane.rows.length := by
  rw [(sorted_table_perm std plane kind sort_key descending).length_eq, List.length_map]

theorem State.length_table (s : State) : (s.table std).length = s.plane.rows.length :=
  length_sorted_table std s.plane s.kind s.sort_key s.sort_descending

/-! ## A coherent view -/

/-- The rows are the window of the table, the cursor stands inside both, and an
action on the cursor takes the row of the table at its place. -/
structure Coherent (s : State) : Prop where
  rows : s.rows = slice (s.table std) s.scroll (s.scroll + s.page_height)
  cursor : 0 < s.total → Framed s.total s.selected s.scroll s.page_height
  target : s.target_row = (s.table std)[s.selected]?

theorem requery_and_assign_eq (s : State) :
    s.requery_and_assign std =
      { s with
        rows := slice (s.table std) s.scroll (s.scroll + s.page_height)
        total := (s.table std).length
        selected := (clamp_viewport (s.table std).length s.selected s.scroll s.page_height).1
        scroll := (clamp_viewport (s.table std).length s.selected s.scroll s.page_height).2
        asked := s.asks s.scroll (s.scroll + s.page_height) } := by
  unfold State.requery_and_assign requery_window
  rw [query_plane_eq]
  rfl

theorem requery_table (s : State) : (s.requery_and_assign std).table std = s.table std := by
  rw [requery_and_assign_eq]
  rfl

/-- Where the window is right, the cursor points at its own row. -/
theorem coherent_of_rows (s : State) (hj : s.jump_query = none)
    (ht : s.total = (s.table std).length)
    (hrows : s.rows = slice (s.table std) s.scroll (s.scroll + s.page_height))
    (hframed : 0 < s.total → Framed s.total s.selected s.scroll s.page_height) :
    Coherent std s := by
  refine ⟨hrows, hframed, ?_⟩
  rw [target_row_normal s hj, hrows]
  rcases Nat.eq_zero_or_pos s.total with h0 | hpos
  · have hnil : s.table std = [] := List.eq_nil_of_length_eq_zero (ht ▸ h0)
    simp [hnil, slice]
  · have hf := hframed hpos
    rw [ht] at hf
    exact getElem?_framed hf

theorem requery_coherent (s : State) (hn : Normal s) (h : AimsInside s) :
    Coherent std (s.requery_and_assign std) := by
  have hlen := s.length_table std
  have hframed : 0 < (s.table std).length →
      Framed (s.table std).length
        (clamp_viewport (s.table std).length s.selected s.scroll s.page_height).1
        (clamp_viewport (s.table std).length s.selected s.scroll s.page_height).2
        s.page_height :=
    fun hpos => clamp_viewport_framed _ _ _ _ hpos hn.height
  rw [requery_and_assign_eq]
  apply coherent_of_rows
  · exact hn.jump
  · rfl
  · change slice (s.table std) s.scroll (s.scroll + s.page_height) = slice (s.table std) _ _
    rcases h with h0 | ⟨ha, hb⟩
    · have hnil : s.table std = [] := List.eq_nil_of_length_eq_zero (hlen.trans h0)
      simp [hnil, slice]
    · rw [← hlen] at ha hb
      rcases Nat.eq_zero_or_pos (s.table std).length with h0 | hpos
      · have hnil : s.table std = [] := List.eq_nil_of_length_eq_zero h0
        simp [hnil, slice]
      · rw [clamp_viewport_eq _ _ _ _ hpos ha hb]
  · exact hframed

/-- Where the rows of the table are pairwise different, no other window is coherent. -/
theorem aimsInside_of_coherent (s : State) (hn : Normal s) (hd : (s.table std).Nodup)
    (h : Coherent std (s.requery_and_assign std)) : AimsInside s := by
  have hlen := s.length_table std
  by_contra haims
  have hpos : 0 < (s.table std).length := by
    rw [hlen]
    by_contra h0
    exact haims (.inl (by omega))
  have hmoved : (clamp_viewport (s.table std).length s.selected s.scroll s.page_height).2 ≠
      s.scroll := by
    intro hs
    rw [hlen] at hs hpos
    exact haims (.inr (clamp_viewport_moves _ _ _ _ hpos hs hn.height))
  have hframed := clamp_viewport_framed _ s.selected s.scroll s.page_height hpos hn.height
  have hrows := h.rows
  rw [requery_table, requery_and_assign_eq] at hrows
  simp only at hrows
  have hfirst := congrArg (fun xs : List TableRow => xs[0]?) hrows
  simp only [getElem?_slice, Nat.add_zero] at hfirst
  have hheight := hn.height
  rw [if_pos (by omega), if_pos (by omega)] at hfirst
  have hin := hframed.inside
  have habove := hframed.above
  exact hmoved ((List.getElem?_inj (by omega) hd).mp hfirst.symm)

/-! ## A run of the table -/

/-- The keys that move the cursor or the order. -/
def table_keys : List Key :=
  [.Char 'j' false, .Down, .Char 'k' false, .Up, .Char 'g' false, .Char 'G' false,
    .Char 'O' false, .Char 'N' false, .Char 'A' false, .Char 'P' false, .Char 'S' false]

/-- What a key sets before the window is fetched. A refresh sets nothing. -/
def State.aim (s : State) : Option Key → State
  | some (.Char 'j' _) | some .Down => s.move_down
  | some (.Char 'k' _) | some .Up => s.move_up
  | some (.Char 'g' _) => s.to_top
  | some (.Char 'G' _) => s.to_bottom
  | some (.Char 'O' _) => s.cycle_sort
  | some (.Char 'N' _) => s.sort_by .Name
  | some (.Char 'A' _) => s.sort_by .Created
  | some (.Char 'P' _) => s.sort_by .Namespace
  | some (.Char 'S' _) => s.sort_by .Status
  | _ => s

/-- One handled step: a key, or a refresh where there is no key. Since the step
before it, the watch task has written to the plane, and the terminal may have
been drawn with another height. -/
structure Handled where
  writes : List Write
  height : Option Nat
  key : Option Key

/-- The state in which the step is taken. -/
def State.before (s : State) (h : Handled) : State :=
  let s := { s with plane := s.plane.run h.writes }
  match h.height with
  | some height => s.draw height
  | none => s

variable [UppercaseTable] (kinds : Kinds) (cluster : Cluster)

def handle (s : State) (h : Handled) : Option State :=
  let s := s.before h
  match h.key with
  | some key =>
    if key ∈ table_keys then (press std kinds cluster key s).toOption.map Loop.state else none
  | none =>
    match (advance std cluster ⟨s, .Top⟩).phase with
    | .Refresh rev => some (advance std cluster ⟨s, .Refresh rev⟩).state
    | _ => none

/-! ## What one step does -/

omit [UppercaseTable] in
theorem requery_unless_jump_eq (s : State) (h : s.jump_query = none) :
    s.requery_unless_jump std = s.requery_and_assign std := by
  simp [State.requery_unless_jump, h]

omit [TimestampText] [UppercaseTable] in
theorem aim_jump_query (s : State) (key : Option Key) :
    (s.aim key).jump_query = s.jump_query := by
  unfold State.aim
  split <;> rfl

/-- A key of the table sets the cursor and fetches the window. -/
theorem press_table_key (s : State) (key : Key) (hn : Normal s) (hk : key ∈ table_keys) :
    press std kinds cluster key s = .ok ⟨(s.aim (some key)).requery_and_assign std, .Top⟩ := by
  have hjump := fun key => (aim_jump_query s key).trans hn.jump
  rw [← requery_unless_jump_eq std _ (hjump _)]
  simp only [table_keys, List.mem_cons, List.not_mem_nil, or_false] at hk
  rcases hk with rfl | rfl | rfl | rfl | rfl | rfl | rfl | rfl | rfl | rfl | rfl <;>
    simp [press, char_key, State.aim, hn.palette, hn.help]

omit [TimestampText] [UppercaseTable] in
theorem Normal.before {s : State} (hn : Normal s) (h : Handled) : Normal (s.before h) := by
  unfold State.before
  cases h.height with
  | none => exact ⟨hn.palette, hn.jump, hn.help, hn.height⟩
  | some height =>
    refine ⟨hn.palette, hn.jump, hn.help, ?_⟩
    simp only [State.draw]
    omega

omit [TimestampText] [UppercaseTable] in
theorem Normal.aim {s : State} (hn : Normal s) (key : Option Key) : Normal (s.aim key) := by
  unfold State.aim
  split <;> exact ⟨hn.palette, hn.jump, hn.help, hn.height⟩

omit [UppercaseTable] in
theorem Normal.requery {s : State} (hn : Normal s) : Normal (s.requery_and_assign std) := by
  rw [requery_and_assign_eq]
  exact ⟨hn.palette, hn.jump, hn.help, hn.height⟩

theorem handle_key (s : State) (h : Handled) (key : Key) (hn : Normal s) (hk : h.key = some key)
    (hmem : key ∈ table_keys) :
    handle std kinds cluster s h =
      some (((s.before h).aim (some key)).requery_and_assign std) := by
  unfold handle
  simp only [hk]
  rw [if_pos hmem, press_table_key std kinds cluster _ key (hn.before h) hmem]
  rfl

/-- A handled step fetches the window at the place that it has aimed at. A refresh
also takes the revision. -/
theorem handle_spec (s t : State) (h : Handled) (hn : Normal s)
    (ht : handle std kinds cluster s h = some t) :
    ∃ rev, t = { ((s.before h).aim h.key).requery_and_assign std with last_revision := rev } := by
  cases hk : h.key with
  | some key =>
    by_cases hmem : key ∈ table_keys
    · rw [handle_key std kinds cluster s h key hn hk hmem] at ht
      cases ht
      exact ⟨_, rfl⟩
    · simp [handle, hk, hmem] at ht
  | none =>
    unfold handle at ht
    simp only [hk] at ht
    split at ht
    · rename_i rev _
      cases ht
      exact ⟨rev, rfl⟩
    · cases ht

omit [UppercaseTable] in
theorem coherent_last_revision (s : State) (rev : Revision) :
    Coherent std { s with last_revision := rev } ↔ Coherent std s :=
  ⟨fun h => ⟨h.rows, h.cursor, h.target⟩, fun h => ⟨h.rows, h.cursor, h.target⟩⟩

/-- A view that was just opened shows the top of its table. -/
def State.opened (s : State) : State := s.to_top.show std 0 s.page_height

omit [UppercaseTable] in
theorem opened_coherent (s : State) (hn : Normal s) : Coherent std (s.opened std) := by
  have hrows : (s.opened std).rows = slice (s.table std) 0 s.page_height := by
    unfold State.opened State.show
    rw [State.query_eq]
    rfl
  apply coherent_of_rows
  · exact hn.jump
  · unfold State.opened State.show
    rw [State.query_eq]
    rfl
  · rw [hrows]
    change _ = slice (s.table std) 0 (0 + s.page_height)
    rw [Nat.zero_add]
  · intro hpos
    exact ⟨Nat.le_refl 0, Nat.lt_of_lt_of_le hn.height (Nat.le_add_left _ _), hpos⟩

/-- The view stays coherent through every run whose steps aim inside their window.
A step that does not breaks it, unless two rows of the table look the same. -/
theorem view_stays_coherent_where_it_aims_inside (s : State) (hn : Normal s) :
    (∀ steps, Guarded (handle std kinds cluster)
        (fun s h => AimsInside ((s.before h).aim h.key)) (s.opened std) steps →
      Always (handle std kinds cluster) (Coherent std) (s.opened std) steps) ∧
    ∀ s t h, Normal s → handle std kinds cluster s h = some t → (t.table std).Nodup →
      (Coherent std t ↔ AimsInside ((s.before h).aim h.key)) := by
  constructor
  · intro steps hsteps
    have hinv : Always (handle std kinds cluster) (fun s => Normal s ∧ Coherent std s)
        (s.opened std) steps := by
      refine Always.of_guarded ?_ ?_ hsteps
      · rintro s h t ⟨hn, _⟩ hg ht
        obtain ⟨rev, rfl⟩ := handle_spec std kinds cluster s t h hn ht
        have haim := (hn.before h).aim h.key
        refine ⟨?_, (coherent_last_revision std _ rev).mpr (requery_coherent std _ haim hg)⟩
        have hr := haim.requery std
        exact ⟨hr.palette, hr.jump, hr.help, hr.height⟩
      · exact ⟨⟨hn.palette, hn.jump, hn.help, hn.height⟩, opened_coherent std s hn⟩
    exact hinv.mono fun s h => h.2
  · intro s t h hn ht hd
    obtain ⟨rev, rfl⟩ := handle_spec std kinds cluster s t h hn ht
    have haim := (hn.before h).aim h.key
    have htable : (((s.before h).aim h.key).table std).Nodup := by
      rw [← requery_table]
      exact hd
    rw [coherent_last_revision]
    exact ⟨aimsInside_of_coherent std _ haim htable, requery_coherent std _ haim⟩

end

/-! ## Three pods -/

@[reducible] def plain_timestamps : TimestampText := ⟨fun millis => toString millis⟩

@[reducible] def ascii_uppercase : UppercaseTable := ⟨Char.isUpper⟩

/-- A cluster without any object, where every other request fails. -/
def empty_cluster : Cluster where
  list _ _ := .ok []
  namespaces := .ok []
  review _ := .ok none
  plural gvk := gvk.kind
  describe _ _ := .error "not found"
  diagnose _ := .error "not found"
  lens_health _ _ := .error "not found"
  logs _ := .error "not found"
  blast_radius _ _ := .error "not found"
  what_changed _ := .error "not found"

def pod_row (name : String) : Row where
  id := name
  cells := [.Text name, .Text "default", .Status .Ok "Running", .Timestamp 0]

/-- The pods of a view, opened on a plane that holds three of them. -/
def three_pods : State where
  kind := .builtin "Pods" "" "v1" "Pod" false
  plane := (new_plane (.builtin "Pods" "" "v1" "Pod" false)).run
    [.upsert (pod_row "a"), .upsert (pod_row "b"), .upsert (pod_row "c")]

theorem three_pods_normal : Normal three_pods := ⟨rfl, rfl, rfl, by decide⟩

theorem pods_stay_coherent_when_one_leaves :
    let up : Handled := ⟨[.remove "c"], some 20, some (.Char 'k' false)⟩
    Always (@handle mergeSort plain_timestamps ascii_uppercase (all_kinds []) empty_cluster)
      (@Coherent mergeSort plain_timestamps) (@State.opened mergeSort plain_timestamps three_pods)
      [up] := by
  intro up
  refine (@view_stays_coherent_where_it_aims_inside mergeSort plain_timestamps ascii_uppercase
    (all_kinds []) empty_cluster three_pods three_pods_normal).1 [up] ?_
  intro t _
  exact ⟨.inr ⟨by decide, by decide⟩, trivial⟩

/-- A plane whose rows stand in the order of the sort. -/
theorem mergeSort_table [TimestampText] {plane : MemPlane} {sort_key : Nat} {descending : Bool}
    {cmp : Row → Row → Ordering}
    (hcmp : comparator plane.column_ids (some (sort_spec plane sort_key descending)) = some cmp)
    (hsorted : plane.rows.Pairwise fun a b => (cmp a b).isLE) (kind : Kind) :
    sorted_table mergeSort plane kind sort_key descending = plane.rows.map (table_row kind) := by
  unfold sorted_table sort_rows
  rw [hcmp]
  exact congrArg (List.map (table_row kind)) (mergeSort_of_sorted _ _ hsorted)

theorem three_pods_table : @State.table mergeSort plain_timestamps three_pods =
    [@table_row plain_timestamps three_pods.kind (pod_row "a"),
      @table_row plain_timestamps three_pods.kind (pod_row "b"),
      @table_row plain_timestamps three_pods.kind (pod_row "c")] := by
  have hcmp : comparator three_pods.plane.column_ids
      (some (sort_spec three_pods.plane 0 false)) = some (cmp_rows 0 false) := rfl
  exact @mergeSort_table plain_timestamps _ _ _ _ hcmp (by decide) three_pods.kind

/-- In a table of two lines, `G` selects the third pod and shows the first two.
The clamp then moves the window over rows that were never fetched, and an action
on the third pod takes the second one. -/
theorem bottom_acts_on_the_row_above :
    let bottom : Handled := ⟨[], some 5, some (.Char 'G' false)⟩
    let opened := @State.opened mergeSort plain_timestamps three_pods
    ∃ t, @handle mergeSort plain_timestamps ascii_uppercase (all_kinds []) empty_cluster opened
        bottom = some t ∧
      t.target_row.map TableRow.name = some "b" ∧
      ((@State.table mergeSort plain_timestamps t)[t.selected]?).map TableRow.name = some "c" ∧
      ¬ @Coherent mergeSort plain_timestamps t := by
  intro bottom opened
  have htable := three_pods_table
  have htotal : opened.total = 3 := by
    change (@State.query mergeSort plain_timestamps three_pods.to_top 0 10).2 = 3
    rw [@State.query_eq]
    change (@State.table mergeSort plain_timestamps three_pods).length = 3
    rw [htable]
    rfl
  have haim : (opened.before bottom).aim (some (.Char 'G' false)) =
      { opened with page_height := 2, selected := 2, scroll := 0 } := by
    change { opened with page_height := 2, selected := opened.total - 1,
                         scroll := opened.total - 1 - 2 } = _
    rw [htotal]
  have hshown : @State.table mergeSort plain_timestamps
      { opened with page_height := 2, selected := 2, scroll := 0 } =
        @State.table mergeSort plain_timestamps three_pods := rfl
  have hopened : Normal opened := ⟨rfl, rfl, rfl, by decide⟩
  refine ⟨_, @handle_key mergeSort plain_timestamps ascii_uppercase _ _ opened bottom _ hopened
    rfl (by decide), ?_⟩
  rw [haim, @requery_and_assign_eq, hshown, htable]
  refine ⟨rfl, ?_, ?_⟩
  · change ((@State.table mergeSort plain_timestamps three_pods)[2]?).map TableRow.name = some "c"
    rw [htable]
    rfl
  · intro hc
    have hrow := congrArg (Option.map TableRow.name)
      (@Coherent.target mergeSort plain_timestamps _ hc)
    change some "b" = ((@State.table mergeSort plain_timestamps three_pods)[2]?).map
      TableRow.name at hrow
    rw [htable] at hrow
    revert hrow
    decide

end kaptein_tui
