-- The rows of a plane after any run of writes: the index and the history that
-- stand beside them, the map that they are, and the order they stand in.
import Kaptein.Query

open runs rust_slice keyed_rows kaptein_viewmodel.table

namespace kaptein_viewmodel.mem_plane

/-! ## The writes as a map -/

/-- What a write does to a map: the last writer of an id decides. -/
def last_writer (m : RowId → Option Row) : Write → RowId → Option Row
  | .upsert row => Function.update m row.id (some row)
  | .remove id => Function.update m id none

/-- Whether a write changes anything: every upsert does, and a removal of an id that
is there. -/
def takes_effect (m : RowId → Option Row) : Write → Bool
  | .upsert _ => true
  | .remove id => (m id).isSome

/-- How many of the writes take effect. -/
def effects (m : RowId → Option Row) : List Write → Nat
  | [] => 0
  | w :: writes => (takes_effect m w).toNat + effects (last_writer m w) writes

theorem last_writer_of_patch {m : RowId → Option Row} {w : Write} {patch : RowPatch}
    (h : patch_of m w = some patch) : fold_patches m [patch] = last_writer m w := by
  cases w with
  | upsert row =>
    cases h
    rfl
  | remove id =>
    simp only [patch_of] at h
    split at h
    · cases h
      rfl
    · cases h

theorem last_writer_of_no_patch {m : RowId → Option Row} {w : Write} (h : patch_of m w = none) :
    last_writer m w = m := by
  cases w with
  | upsert row => cases h
  | remove id =>
    simp only [patch_of] at h
    split at h
    · cases h
    · rename_i hn
      have hnone : m id = none := by simpa using hn
      simp [last_writer, ← hnone]

theorem isSome_patch_of (m : RowId → Option Row) (w : Write) :
    (patch_of m w).isSome = takes_effect m w := by
  cases w with
  | upsert row => rfl
  | remove id =>
    simp only [patch_of, takes_effect]
    split <;> simp_all

/-- The patches of some writes make the map of the last writers. -/
theorem fold_patches_of (m : RowId → Option Row) (writes : List Write) :
    fold_patches m (patches_of m writes) = writes.foldl last_writer m := by
  induction writes generalizing m with
  | nil => rfl
  | cons w writes ih =>
    unfold patches_of
    cases hp : patch_of m w with
    | none =>
      simp only
      rw [ih, List.foldl_cons, last_writer_of_no_patch hp]
    | some patch =>
      simp only
      rw [← List.singleton_append, fold_patches_append, ih, List.foldl_cons,
        last_writer_of_patch hp]

theorem length_patches_of (m : RowId → Option Row) (writes : List Write) :
    (patches_of m writes).length = effects m writes := by
  induction writes generalizing m with
  | nil => rfl
  | cons w writes ih =>
    have heff := isSome_patch_of m w
    unfold patches_of effects
    cases hp : patch_of m w with
    | none =>
      rw [hp] at heff
      rw [← heff]
      simp only [Option.isSome_none, Bool.toNat_false, Nat.zero_add]
      rw [ih, last_writer_of_no_patch hp]
    | some patch =>
      rw [hp] at heff
      rw [← heff]
      simp only [Option.isSome_some, Bool.toNat_true, List.length_cons]
      rw [ih, last_writer_of_patch hp]
      omega

/-! ## The invariant of the state -/

/-- The plane after some writes on an empty one. -/
structure Represents (p : MemPlane) (writes : List Write) : Prop where
  index : ∀ id i, p.state.index id = some i ↔ ∃ row, p.rows[i]? = some row ∧ row.id = id
  distinct : (p.rows.map Row.id).Nodup
  last_writers : ∀ id row, row ∈ p.rows ∧ row.id = id ↔
    writes.foldl last_writer (fun _ => none) id = some row
  /-- The history is the last entries, up to its cap, with the revisions that end now. -/
  history : p.state.history.map HistoryEntry.revision =
    List.range' (p.revision - p.state.history.length + 1) p.state.history.length
  kept : p.state.history.length = min p.revision 1024
  revision : p.revision = effects (fun _ => none) writes

theorem nodup_ids (s : State) : (s.rows.map Row.id).Nodup := by
  unfold List.Nodup
  rw [List.pairwise_iff_getElem]
  intro i j hi hj hlt heq
  rw [List.length_map] at hi hj
  simp only [List.getElem_map] at heq
  have := s.indexed.unique (List.getElem?_eq_getElem hi) (List.getElem?_eq_getElem hj) heq
  omega

/-- The revisions of a numbered log stand one after another. -/
theorem map_revision_numbered (n : Nat) (log : List HistoryEntry) (h : Numbered n log) :
    log.map HistoryEntry.revision = List.range' (n + 1) log.length := by
  induction log generalizing n with
  | nil => rfl
  | cons e log ih =>
    rw [List.map_cons, ih (n + 1) h.2, h.1]
    rfl

/-- After any writes the index finds each row at its place, no id stands twice, the
rows are what the last writers left, and the revision counts the writes that took
effect, down to the oldest entry of the history. -/
theorem run_represents (column_ids : List String) (writes : List Write) :
    Represents ((MemPlane.new column_ids).run writes) writes := by
  obtain ⟨made, hmade, hpatches, hcap⟩ := (follows_new column_ids).run writes
  rw [List.nil_append] at hmade
  generalize hp : (MemPlane.new column_ids).run writes = p at hmade hcap ⊢
  change made.map HistoryEntry.patch = patches_of (fun _ => none) writes at hpatches
  have hcap' : p.history_cap = 1024 := hcap
  have hlen : p.state.history.length = min p.revision 1024 := by
    rw [hmade.history, List.length_drop, hmade.revision, hcap']
    omega
  refine ⟨p.state.indexed, nodup_ids p.state, ?_, ?_, hlen, ?_⟩
  · intro id row
    rw [← fold_patches_of, ← hpatches, ← hmade.row_map]
    exact (lookup_eq_some p.state.indexed id row).symm
  · have hnum := map_revision_numbered _ _
      (numbered_drop 0 (made.length - p.history_cap) made hmade.numbered)
    rw [← hmade.history] at hnum
    have hfirst : 0 + (made.length - 1024) = made.length - min made.length 1024 := by
      omega
    rw [hnum, hlen, hmade.revision, hcap', hfirst]
  · rw [hmade.revision, ← length_patches_of, ← hpatches, List.length_map]

/-! ## The order of insertion -/

/-- The live ids in the order in which each was inserted after its last removal. -/
def insertion_order (order : List RowId) : Write → List RowId
  | .upsert row => if row.id ∈ order then order else order ++ [row.id]
  | .remove id => order.filter (· ≠ id)

/-- A plane beside the order that its rows should stand in. -/
abbrev Listed := MemPlane × List RowId

def listed_step (s : Listed) (w : Write) : Option Listed :=
  some (s.1.write w, insertion_order s.2 w)

/-- The rows stand in the order of insertion. -/
def InOrder (s : Listed) : Prop := s.1.rows.map Row.id = s.2

/-- A removed row has at most one later row. -/
def TakesNearEnd (p : MemPlane) : Write → Prop
  | .upsert _ => True
  | .remove id => ∀ i, p.state.index id = some i → p.rows.length ≤ i + 2

theorem write_upsert_rows (p : MemPlane) (row : Row) :
    (p.write (.upsert row)).rows =
      match p.state.index row.id with
      | some i => p.rows.set i row
      | none => p.rows ++ [row] := by
  change (p.state.upsert row).rows = _
  unfold State.upsert
  split
  · rename_i i hi
    simp only [hi, MemPlane.rows]
  · rename_i hi
    simp only [hi, MemPlane.rows]

theorem write_remove_rows (p : MemPlane) (id : RowId) :
    (p.write (.remove id)).rows =
      match p.state.index id with
      | some i => swap_remove p.rows i
      | none => p.rows := by
  have hrows : (p.write (.remove id)).rows = (p.remove_state id).1.rows := by
    simp only [MemPlane.write, MemPlane.remove]
    rcases p.remove_state id with ⟨q, entry⟩
    cases entry <;> rfl
  rw [hrows]
  unfold MemPlane.remove_state State.remove
  split
  · rename_i state hs
    split at hs
    · rename_i i hi
      cases hs
      simp only [hi, MemPlane.commit, MemPlane.rows]
    · cases hs
  · rename_i hs
    split at hs
    · cases hs
    · rename_i hi
      simp only [hi, MemPlane.rows]

theorem mem_ids_iff (s : State) (id : RowId) : id ∈ s.rows.map Row.id ↔ s.index id ≠ none := by
  rw [List.mem_map]
  constructor
  · rintro ⟨row, hrow, rfl⟩ hnone
    obtain ⟨i, hi⟩ := List.mem_iff_getElem?.mp hrow
    rw [(s.indexed row.id i).mpr ⟨row, hi, rfl⟩] at hnone
    cases hnone
  · intro h
    obtain ⟨i, hi⟩ := Option.ne_none_iff_exists'.mp h
    obtain ⟨row, hrow, hid⟩ := (s.indexed id i).mp hi
    exact ⟨row, List.mem_of_getElem? hrow, hid⟩

/-- An upsert appends a new id and moves no other. -/
theorem upsert_ids (p : MemPlane) (row : Row) :
    (p.write (.upsert row)).rows.map Row.id =
      insertion_order (p.rows.map Row.id) (.upsert row) := by
  rw [write_upsert_rows]
  simp only [insertion_order]
  cases hi : p.state.index row.id with
  | none =>
    have hnew : row.id ∉ p.rows.map Row.id := by
      intro h
      exact (mem_ids_iff p.state row.id).mp h hi
    rw [if_neg hnew, List.map_append]
    rfl
  | some i =>
    have hold : row.id ∈ p.rows.map Row.id := by
      apply (mem_ids_iff p.state row.id).mpr
      rw [hi]
      simp
    obtain ⟨old, hget, hid⟩ := (p.state.indexed row.id i).mp hi
    rw [if_pos hold, List.map_set]
    apply List.ext_getElem?
    intro j
    rw [List.getElem?_set]
    split_ifs with hij hlt
    · subst hij
      change _ = (List.map Row.id p.state.rows)[i]?
      rw [List.getElem?_map, hget, Option.map_some, hid]
    · subst hij
      rw [List.getElem?_eq_none (by omega)]
    · rfl

/-- The rows that a removal should leave. -/
theorem filter_ids (p : MemPlane) (id : RowId) :
    (p.rows.filter fun row => row.id ≠ id).map Row.id =
      insertion_order (p.rows.map Row.id) (.remove id) := by
  simp only [insertion_order]
  rw [List.filter_map]
  rfl

/-- A removal with at most one later row leaves the others in order. -/
theorem remove_rows_near_end {p : MemPlane} {id : RowId} (h : TakesNearEnd p (.remove id)) :
    (p.write (.remove id)).rows = p.rows.filter fun row => row.id ≠ id := by
  rw [write_remove_rows]
  cases hi : p.state.index id with
  | some i =>
    have hfilter := filter_key_ne p.state.indexed hi
    have hswap := swap_remove_eq_eraseIdx (p.state.indexed.lt hi) (h i hi)
    exact hswap.trans hfilter.symm
  | none =>
    symm
    rw [List.filter_eq_self]
    intro row hrow
    have hne : row.id ≠ id := by
      rintro rfl
      exact (mem_ids_iff p.state row.id).mp (List.mem_map_of_mem hrow) hi
    simpa using hne

/-- Every other removal moves one. -/
theorem takesNearEnd_of_ids {p : MemPlane} {id : RowId}
    (h : (p.write (.remove id)).rows.map Row.id =
      (p.rows.filter fun row => row.id ≠ id).map Row.id) : TakesNearEnd p (.remove id) := by
  intro i hi
  rw [write_remove_rows, hi] at h
  have hfilter := filter_key_ne p.state.indexed hi
  change p.rows.filter _ = _ at hfilter
  rw [hfilter] at h
  exact near_of_map_swap_remove p.state.indexed hi h

theorem listed_step_keeps (s t : Listed) (w : Write) (hs : InOrder s) (hw : TakesNearEnd s.1 w)
    (ht : listed_step s w = some t) : InOrder t := by
  cases ht
  unfold InOrder at hs ⊢
  rw [← hs]
  cases w with
  | upsert row => exact upsert_ids s.1 row
  | remove id =>
    rw [remove_rows_near_end hw]
    exact filter_ids s.1 id

theorem listed_step_breaks (s t : Listed) (w : Write) (hs : InOrder s)
    (hw : ¬ TakesNearEnd s.1 w) (ht : listed_step s w = some t) : ¬ InOrder t := by
  cases ht
  intro hin
  cases w with
  | upsert row => exact hw trivial
  | remove id =>
    apply hw
    apply takesNearEnd_of_ids
    rw [filter_ids, show s.1.rows.map Row.id = s.2 from hs]
    exact hin

/-! ## The order of pages -/

variable (std : StableSort)

/-- A removal takes its row from every unsorted answer and moves no other row, and
rows with equal sort keys stay in order. -/
structure KeepsOrderOfOthers (p : MemPlane) (id : RowId) : Prop where
  unsorted : ∀ query, comparator p.column_ids query.sort = none →
    (p.write (.remove id)).matching_rows std query =
      (p.matching_rows std query).filter fun row => row.id ≠ id
  ties : ∀ query cmp, comparator p.column_ids query.sort = some cmp → TotalPreorderOn cmp p.rows →
    ∀ a b, a.id ≠ id → b.id ≠ id → cmp a b = .eq →
      [a, b].Sublist (p.matching_rows std query) →
      [a, b].Sublist ((p.write (.remove id)).matching_rows std query)

theorem write_column_ids (p : MemPlane) (w : Write) : (p.write w).column_ids = p.column_ids := by
  cases w with
  | upsert row => rfl
  | remove id =>
    simp only [MemPlane.write, MemPlane.remove, MemPlane.remove_state]
    cases p.state.remove id <;> rfl

/-- Both filters in either order. -/
theorem filter_rows_filter (rows : List Row) (filter : Option Filter) (keep : Row → Bool) :
    filter_rows (rows.filter keep) filter = (filter_rows rows filter).filter keep := by
  unfold filter_rows
  cases needle_of filter with
  | none => rfl
  | some needle =>
    simp only [List.filter_filter]
    apply List.filter_congr
    intro row _
    exact Bool.and_comm _ _

theorem filter_rows_sublist (rows : List Row) (filter : Option Filter) :
    (filter_rows rows filter).Sublist rows := by
  unfold filter_rows
  cases needle_of filter with
  | none => exact List.Sublist.refl _
  | some needle => exact List.filter_sublist

theorem sublist_filter_rows {some_ rows : List Row} (hsub : some_.Sublist rows)
    {filter : Option Filter} (hall : filter_rows some_ filter = some_) :
    some_.Sublist (filter_rows rows filter) := by
  rw [← hall]
  unfold filter_rows
  cases needle_of filter with
  | none => exact hsub
  | some needle => exact hsub.filter _

/-- The filter keeps what it has kept. -/
theorem filter_rows_of_subset {some_ rows : List Row} {filter : Option Filter}
    (h : some_ ⊆ filter_rows rows filter) : filter_rows some_ filter = some_ := by
  unfold filter_rows at h ⊢
  cases hn : needle_of filter with
  | none => rfl
  | some needle =>
    simp only [hn] at h
    rw [List.filter_eq_self]
    intro row hrow
    exact (List.mem_filter.mp (h hrow)).2

theorem sort_rows_of_comparator {rows : List Row} {column_ids : List String}
    {sort : Option SortSpec} {cmp : Row → Row → Ordering}
    (h : comparator column_ids sort = some cmp) :
    sort_rows std rows column_ids sort = std.sort_by cmp rows := by
  unfold sort_rows
  rw [h]

theorem keepsOrderOfOthers_of_near_end {p : MemPlane} {id : RowId}
    (h : TakesNearEnd p (.remove id)) : KeepsOrderOfOthers std p id where
  unsorted := by
    intro query hcmp
    have hrows := remove_rows_near_end h
    change (p.write (.remove id)).state.rows = p.state.rows.filter _ at hrows
    unfold MemPlane.matching_rows sort_rows
    rw [write_column_ids, hcmp, hrows]
    exact filter_rows_filter _ _ _
  ties := by
    intro query cmp hcmp htotal a b ha hb hab hsub
    have hrows := remove_rows_near_end h
    change (p.write (.remove id)).state.rows = p.state.rows.filter _ at hrows
    unfold MemPlane.matching_rows at hsub ⊢
    rw [write_column_ids, sort_rows_of_comparator std hcmp, hrows]
    rw [sort_rows_of_comparator std hcmp] at hsub
    have hnodup : p.state.rows.Nodup := by
      apply (List.pairwise_map.mp (nodup_ids p.state)).imp
      intro a b hne heq
      exact hne (by rw [heq])
    have hin : [a, b].Sublist p.state.rows :=
      std.ties_on htotal hnodup hab (hsub.trans (filter_rows_sublist _ _))
    have hleft : [a, b].Sublist (p.state.rows.filter fun row => row.id ≠ id) := by
      have hkeep := hin.filter fun row => row.id ≠ id
      rwa [List.filter_eq_self.mpr (by simp [ha, hb])] at hkeep
    have hpart : TotalPreorderOn cmp (p.state.rows.filter fun row => row.id ≠ id) :=
      htotal.mono (List.filter_subset_self _)
    exact sublist_filter_rows (std.stable_on hpart (by rw [hab]; rfl) hleft)
      (filter_rows_of_subset hsub.subset)

/-- The rows of a plane stand in the order of insertion in every state of a run exactly
where each removal of the run takes a row with at most one later row. These removals,
in any plane, are the ones that keep the order of all other rows in its pages. -/
theorem rows_in_insertion_order_iff (column_ids : List String) (writes : List Write) :
    (Always listed_step InOrder (MemPlane.new column_ids, []) writes ↔
      Guarded listed_step (fun s w => TakesNearEnd s.1 w) (MemPlane.new column_ids, []) writes) ∧
    ∀ (p : MemPlane) (id : RowId),
      KeepsOrderOfOthers std p id ↔ TakesNearEnd p (.remove id) := by
  constructor
  · exact always_iff_guarded (fun _ h => h) (fun s w t _ => listed_step_keeps s t w)
      (fun s w t _ => listed_step_breaks s t w) rfl fun _ _ => trivial
  · intro p id
    constructor
    · intro h
      have hall := h.unsorted { start := 0, end_ := 0, sort := none, filter := none } rfl
      apply takesNearEnd_of_ids
      exact congrArg (List.map Row.id) hall
    · exact keepsOrderOfOthers_of_near_end std

/-- The first of three rows removed: the last one takes its place. -/
theorem a_removal_moves_the_last_row :
    let row : RowId → Row := fun id => { id, cells := [.Text "same"] }
    let p := (MemPlane.new ["name"]).run
      [.upsert (row "a"), .upsert (row "b"), .upsert (row "c")]
    let query : Query := { start := 0, end_ := 10, sort := none, filter := none }
    p.matching_rows mergeSort query = [row "a", row "b", row "c"] ∧
      (p.write (.remove "a")).matching_rows mergeSort query = [row "c", row "b"] ∧
      ¬ Always listed_step InOrder (MemPlane.new ["name"], [])
        [.upsert (row "a"), .upsert (row "b"), .upsert (row "c"), .remove "a"] := by
  intro row p query
  refine ⟨rfl, rfl, ?_⟩
  intro h
  have hlast : InOrder (p.write (.remove "a"), ["b", "c"]) := h.last rfl
  unfold InOrder at hlast
  exact absurd hlast (by decide)

end kaptein_viewmodel.mem_plane
