-- Subscribers of the data plane (`subscribe`): what the replay of an old
-- revision rebuilds, and what a subscriber gets while writers run.
import Kaptein.Lib.Runs
import Kaptein.MemPlane

open patches

namespace kaptein_viewmodel.mem_plane

/-! ## A whole run of writes -/

theorem Follows.write {p : MemPlane} {log : List HistoryEntry} (h : Follows p log)
    (w : Write) : Follows (p.write w) (log ++ (p.write_state w).2.toList) := by
  have hs := h.write_state w
  cases w with
  | upsert row => exact hs.broadcast _
  | remove id =>
    simp only [MemPlane.write, MemPlane.remove, MemPlane.write_state] at hs ⊢
    generalize p.remove_state id = r at hs ⊢
    obtain ⟨q, entry⟩ := r
    cases entry with
    | some entry => exact hs.broadcast _
    | none => exact hs

theorem write_cap (p : MemPlane) (w : Write) : (p.write w).history_cap = p.history_cap := by
  cases w with
  | upsert row => rfl
  | remove id =>
    simp only [MemPlane.write, MemPlane.remove, MemPlane.remove_state]
    cases p.state.remove id <;> rfl

/-- A run adds the patches of its writes to the log. -/
theorem Follows.run {p : MemPlane} {log : List HistoryEntry} (h : Follows p log)
    (writes : List Write) :
    ∃ made, Follows (p.run writes) (log ++ made) ∧
      made.map HistoryEntry.patch = patches_of p.row_map writes ∧
      (p.run writes).history_cap = p.history_cap := by
  induction writes generalizing p log with
  | nil => exact ⟨[], by rw [List.append_nil]; exact h, rfl, rfl⟩
  | cons w writes ih =>
    have hw := h.write w
    obtain ⟨made, hmade, hpatches, hcap⟩ := ih hw
    refine ⟨(p.write_state w).2.toList ++ made, ?_, ?_, ?_⟩
    · rw [← List.append_assoc]
      exact hmade
    · have hentry := write_state_entry p w
      have hmap := hw.row_map
      rw [List.map_append, fold_patches_append, ← h.row_map] at hmap
      rw [List.map_append, hpatches, hmap, patches_of]
      cases hs : (p.write_state w).2 with
      | none =>
        rw [hs] at hentry
        rw [← hentry]
        rfl
      | some entry =>
        rw [hs] at hentry
        rw [← hentry]
        rfl
    · rw [← write_cap p w]
      exact hcap

theorem Follows.run_row_map {p : MemPlane} {log : List HistoryEntry} (h : Follows p log)
    (writes : List Write) :
    (p.run writes).row_map = fold_patches p.row_map (patches_of p.row_map writes) := by
  obtain ⟨made, hmade, hpatches, _⟩ := h.run writes
  rw [hmade.row_map, List.map_append, fold_patches_append, ← h.row_map, hpatches]

/-- The replay of an old revision is what the history still has of the patches
made since. -/
theorem Follows.run_replay {p : MemPlane} {log : List HistoryEntry} (h : Follows p log)
    (writes : List Write) :
    (p.run writes).replay p.revision =
      (patches_of p.row_map writes).drop
        ((patches_of p.row_map writes).length - p.history_cap) := by
  obtain ⟨made, hmade, hpatches, hcap⟩ := h.run writes
  have hmax : ∀ l m c : Nat, max l (l + m - c) = l + (m - c) := by
    intro l m c
    omega
  rw [hmade.replay, hcap, h.revision, List.length_append, hmax, ← List.drop_drop,
    List.drop_left, List.map_drop, hpatches, ← hpatches, List.length_map]

theorem Follows.write_revision {p : MemPlane} {log : List HistoryEntry} (h : Follows p log)
    (w : Write) :
    (p.write w).revision = p.revision + (p.write_state w).2.toList.length := by
  rw [(h.write w).revision, h.revision, List.length_append]

/-- A run passes every revision up to its last one. -/
theorem every_revision_is_passed {p : MemPlane} {log : List HistoryEntry} (h : Follows p log)
    (writes : List Write) (from_ : Revision) (hlow : p.revision ≤ from_)
    (hhigh : from_ ≤ (p.run writes).revision) :
    ∃ before after, writes = before ++ after ∧ (p.run before).revision = from_ := by
  induction writes generalizing p log with
  | nil => exact ⟨[], [], rfl, Nat.le_antisymm hlow hhigh⟩
  | cons w writes ih =>
    by_cases heq : p.revision = from_
    · exact ⟨[], w :: writes, rfl, heq⟩
    · have hw := h.write_revision w
      have hone : (p.write_state w).2.toList.length ≤ 1 := by
        cases (p.write_state w).2 <;> simp
      have hnext : (p.write w).revision ≤ from_ := by
        have hlt := Nat.lt_of_le_of_ne hlow heq
        rw [hw]
        exact Nat.le_trans (Nat.add_le_add_left hone _) hlt
      obtain ⟨before, after, hsplit, hrev⟩ := ih (h.write w) hnext hhigh
      exact ⟨w :: before, after, by rw [hsplit]; rfl, hrev⟩

theorem follows_run_new (column_ids : List String) (writes : List Write) :
    ∃ log, Follows ((MemPlane.new column_ids).run writes) log ∧
      ((MemPlane.new column_ids).run writes).history_cap = 1024 := by
  obtain ⟨made, hmade, _, hcap⟩ := (follows_new column_ids).run writes
  exact ⟨[] ++ made, hmade, hcap⟩

/-! ## The replay of an old revision -/

/-- The ids that a stream of patches names. -/
def named (stream : List RowPatch) : List RowId := touched (stream.map toPatch)

/-- The patches made after a revision that the history has dropped, and the
ones it has kept. -/
def dropped (made : List RowPatch) : List RowPatch := made.take (made.length - 1024)

def kept (made : List RowPatch) : List RowPatch := made.drop (made.length - 1024)

/-- The replay rebuilds the rows exactly when each id that the kept patches do
not name has, after the dropped patches, the row it had before them. -/
theorem replay_is_complete_iff_the_dropped_patches_change_no_other_row
    (column_ids : List String) (before after : List Write) :
    let p := (MemPlane.new column_ids).run before
    let q := p.run after
    let made := patches_of p.row_map after
    fold_patches p.row_map (q.subscribe p.revision).2 = q.row_map ↔
      ∀ id, id ∉ named (kept made) → fold_patches p.row_map (dropped made) id = p.row_map id := by
  intro p q made
  obtain ⟨log, hlog, hcap⟩ := follows_run_new column_ids before
  have hreplay : (q.subscribe p.revision).2 = kept made := by
    have h := hlog.run_replay after
    rw [hcap] at h
    exact h
  have hsplit : made = dropped made ++ kept made := (List.take_append_drop _ _).symm
  have hmap : q.row_map =
      applyAll p.row_map ((dropped made).map toPatch ++ (kept made).map toPatch) := by
    rw [← List.map_append, ← hsplit]
    exact hlog.run_row_map after
  rw [hreplay, hmap]
  exact applyAll_lost_prefix _ _ _

/-- So the replay of any of the last 1024 revisions is complete. -/
theorem replay_of_a_recent_revision_is_complete (column_ids : List String)
    (before after : List Write) :
    let p := (MemPlane.new column_ids).run before
    let q := p.run after
    q.revision ≤ p.revision + 1024 →
      fold_patches p.row_map (q.subscribe p.revision).2 = q.row_map := by
  intro p q hle
  obtain ⟨log, hlog, hcap⟩ := follows_run_new column_ids before
  obtain ⟨made, hmade, hpatches, _⟩ := hlog.run after
  have hlen : (patches_of p.row_map after).length ≤ 1024 := by
    have hq : q.revision = (log ++ made).length := hmade.revision
    have hp : p.revision = log.length := hlog.revision
    have hlist : made.length = (patches_of p.row_map after).length := by
      rw [← hpatches, List.length_map]
    rw [hq, hp, List.length_append] at hle
    rw [← hlist]
    exact Nat.le_of_add_le_add_left hle
  have hreplay : (q.subscribe p.revision).2 = patches_of p.row_map after := by
    have h := hlog.run_replay after
    rw [hcap, Nat.sub_eq_zero_of_le hlen] at h
    exact h
  rw [hreplay]
  exact (hlog.run_row_map after).symm

theorem patches_of_upserts (m : RowId → Option Row) (rows : List Row) :
    patches_of m (rows.map .upsert) = rows.map fun row => .Upsert row.id row := by
  induction rows generalizing m with
  | nil => rfl
  | cons row rows ih =>
    simp only [List.map_cons, patches_of, patch_of]
    rw [ih]

theorem named_replicate (n : Nat) (patch : RowPatch) (id : RowId)
    (h : id ∈ named (List.replicate n patch)) : id = (toPatch patch).key := by
  unfold named touched at h
  rw [List.map_replicate, List.map_replicate] at h
  exact List.eq_of_mem_replicate h

/-- A row written once and then followed by 1024 patches of another row is not
in the replay from the start. -/
theorem replay_loses_a_row_written_once (a b : Row) (n : Nat) (hn : 1024 ≤ n)
    (hab : a.id ≠ b.id) (q : MemPlane)
    (hq : q = (MemPlane.new []).run ((a :: List.replicate n b).map .upsert)) :
    fold_patches (MemPlane.new []).row_map (q.replay (MemPlane.new []).revision) a.id = none ∧
      q.row_map a.id = some a := by
  have hmade : patches_of (MemPlane.new []).row_map ((a :: List.replicate n b).map .upsert) =
      .Upsert a.id a :: List.replicate n (.Upsert b.id b) := by
    rw [patches_of_upserts, List.map_cons, List.map_replicate]
  have huntouched : ∀ (m : RowId → Option Row) (k : Nat),
      fold_patches m (List.replicate k (.Upsert b.id b)) a.id = m a.id := by
    intro m k
    apply applyAll_untouched
    intro hmem
    exact hab (named_replicate _ _ _ hmem)
  have hcap : (MemPlane.new []).history_cap = 1024 := rfl
  constructor
  · have h := (follows_new []).run_replay ((a :: List.replicate n b).map .upsert)
    rw [← hq, hmade, List.length_cons, List.length_replicate, hcap,
      show n + 1 - 1024 = n - 1024 + 1 by omega, List.drop_succ_cons,
      List.drop_replicate] at h
    rw [h, huntouched]
    rfl
  · have h := (follows_new []).run_row_map ((a :: List.replicate n b).map .upsert)
    rw [← hq, hmade] at h
    rw [h]
    change fold_patches (fold_patches _ [.Upsert a.id a]) (List.replicate n _) a.id = some a
    rw [huntouched]
    exact apply_key _ (.Set a.id a)

/-- One upsert of `a` and then 1024 of `b`: the replay from the start has no `a`. -/
theorem a_row_written_once_is_lost :
    let a : Row := { id := "a", cells := [] }
    let b : Row := { id := "b", cells := [] }
    let p := MemPlane.new []
    let q := p.run ((a :: List.replicate 1024 b).map .upsert)
    fold_patches p.row_map (q.subscribe p.revision).2 ≠ q.row_map := by
  intro a b p q
  have hq : q = p.run ((a :: List.replicate 1024 b).map .upsert) := rfl
  clear_value q
  intro hsame
  obtain ⟨hlost, hthere⟩ :=
    replay_loses_a_row_written_once a b 1024 (Nat.le_refl _) (by decide) q hq
  have hat := congrFun hsame a.id
  rw [hthere] at hat
  cases hlost.symm.trans hat

end kaptein_viewmodel.mem_plane
