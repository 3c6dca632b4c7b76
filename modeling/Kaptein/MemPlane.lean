-- The in-memory data plane (`mem_plane.rs`): rows under their ids, a revision
-- that counts the patches, and a history that keeps only the last of them.
-- Each function is cut where the source takes and drops a lock.
import Kaptein.Lens
import Kaptein.Lib.Patches
import Kaptein.Lib.KeyedRows

open patches keyed_rows

namespace kaptein_viewmodel.mem_plane

structure HistoryEntry where
  revision : Revision
  patch : RowPatch
  deriving DecidableEq

/-- The index always points at the row of its key, so `rows[i]` and
`swap_remove(i)` never leave the vector. -/
structure State where
  rows : List Row
  index : RowId → Option Nat
  history : List HistoryEntry
  indexed : Indexes Row.id rows index

/-- The sending end of a channel with no bound: what went into it, and whether
the receiver is gone. -/
structure Sender where
  sent : List RowPatch
  is_closed : Bool
  deriving DecidableEq

structure MemPlane where
  state : State
  revision : Revision
  column_ids : List String
  live : List Sender
  history_cap : Nat

def MemPlane.new (column_ids : List String) : MemPlane where
  state := { rows := [], index := fun _ => none, history := [], indexed := indexes_nil }
  revision := 0
  column_ids := column_ids
  live := []
  history_cap := 1024

/-! ## The state under its lock -/

/-- The rows of `upsert`: a row of the same id is replaced in place, a new one
is pushed. -/
def State.upsert (s : State) (row : Row) : State :=
  match h : s.index row.id with
  | some i => { s with rows := s.rows.set i row, indexed := s.indexed.set h }
  | none =>
    { s with
      rows := s.rows ++ [row]
      index := Function.update s.index row.id (some s.rows.length)
      indexed := s.indexed.push h }

/-- The rows of `remove`, or `none` for an id with no row. -/
def State.remove (s : State) (id : RowId) : Option State :=
  match h : s.index id with
  | some i =>
    some { s with
      rows := swap_remove s.rows i
      index := index_after_remove Row.id s.rows s.index id i
      indexed := s.indexed.swap_remove h }
  | none => none

/-- `push_back`, then `pop_front` when the history is longer than its cap. -/
def push_capped (cap : Nat) (history : List HistoryEntry) (entry : HistoryEntry) :
    List HistoryEntry :=
  let history := history ++ [entry]
  if history.length > cap then history.drop 1 else history

/-- The next revision and its entry in the history. -/
def MemPlane.commit (p : MemPlane) (state : State) (patch : RowPatch) :
    MemPlane × HistoryEntry :=
  let entry := { revision := p.revision + 1, patch := patch }
  ({ p with
      state := { state with history := push_capped p.history_cap state.history entry }
      revision := p.revision + 1 }, entry)

/-- `upsert` up to the point where it drops the state lock. -/
def MemPlane.upsert_state (p : MemPlane) (row : Row) : MemPlane × HistoryEntry :=
  p.commit (p.state.upsert row) (.Upsert row.id row)

/-- `remove` up to the point where it drops the state lock. An absent id changes
nothing and makes no patch. -/
def MemPlane.remove_state (p : MemPlane) (id : RowId) : MemPlane × Option HistoryEntry :=
  match p.state.remove id with
  | some state =>
    let (p, entry) := p.commit state (.Remove id)
    (p, some entry)
  | none => (p, none)

/-! ## The subscribers under theirs -/

def Sender.unbounded_send (tx : Sender) (patch : RowPatch) : Sender :=
  { tx with sent := tx.sent ++ [patch] }

def MemPlane.broadcast (p : MemPlane) (patch : RowPatch) : MemPlane :=
  { p with
    live := (p.live.filter fun tx => !tx.is_closed).map fun tx => tx.unbounded_send patch }

/-- The replay of `subscribe`, read under the state lock. -/
def MemPlane.replay (p : MemPlane) (from_ : Revision) : List RowPatch :=
  (p.state.history.filter fun e => e.revision > from_).map HistoryEntry.patch

/-- The new sender of `subscribe`, added under the lock of the subscribers. -/
def MemPlane.attach (p : MemPlane) : MemPlane :=
  { p with live := p.live ++ [{ sent := [], is_closed := false }] }

def MemPlane.subscribe (p : MemPlane) (from_ : Revision) : MemPlane × List RowPatch :=
  (p.attach, p.replay from_)

/-! ## Whole calls -/

def MemPlane.upsert (p : MemPlane) (row : Row) : MemPlane × Revision :=
  let (p, entry) := p.upsert_state row
  (p.broadcast entry.patch, entry.revision)

def MemPlane.remove (p : MemPlane) (id : RowId) : MemPlane × Revision :=
  match p.remove_state id with
  | (p, some entry) => (p.broadcast entry.patch, entry.revision)
  | (p, none) => (p, p.revision)

/-- A call of a writer. -/
inductive Write where
  | upsert (row : Row)
  | remove (id : RowId)
  deriving DecidableEq

/-- A writer up to the point where it drops the state lock. -/
def MemPlane.write_state (p : MemPlane) : Write → MemPlane × Option HistoryEntry
  | .upsert row =>
    let (p, entry) := p.upsert_state row
    (p, some entry)
  | .remove id => p.remove_state id

def MemPlane.write (p : MemPlane) : Write → MemPlane
  | .upsert row => (p.upsert row).1
  | .remove id => (p.remove id).1

def MemPlane.run (p : MemPlane) (writes : List Write) : MemPlane := writes.foldl MemPlane.write p

def MemPlane.rows (p : MemPlane) : List Row := p.state.rows

/-! ## What a plane stands for: a map from ids to rows -/

def State.row_map (s : State) : RowId → Option Row := lookup s.rows s.index

def MemPlane.row_map (p : MemPlane) : RowId → Option Row := p.state.row_map

/-- A patch of the plane as a patch of the map. -/
def toPatch : RowPatch → Patch RowId Row
  | .Upsert id row => .Set id row
  | .Remove id => .Erase id

/-- The map after the patches of a stream. -/
def fold_patches (m : RowId → Option Row) (stream : List RowPatch) : RowId → Option Row :=
  applyAll m (stream.map toPatch)

theorem fold_patches_append (m : RowId → Option Row) (a b : List RowPatch) :
    fold_patches m (a ++ b) = fold_patches (fold_patches m a) b := by
  unfold fold_patches
  rw [List.map_append, applyAll_append]

theorem State.mem_rows (s : State) (row : Row) :
    row ∈ s.rows ↔ s.row_map row.id = some row := by
  unfold row_map
  rw [lookup_eq_some s.indexed]
  simp

/-- A row of the map carries the id it stands under. -/
theorem State.row_map_id (s : State) (id : RowId) (row : Row) (h : s.row_map id = some row) :
    row.id = id :=
  ((lookup_eq_some s.indexed id row).mp h).2

theorem State.upsert_row_map (s : State) (row : Row) :
    (s.upsert row).row_map = Function.update s.row_map row.id (some row) := by
  unfold State.upsert
  split
  · rename_i i h
    exact lookup_set s.indexed h
  · exact lookup_push s.indexed row

theorem State.remove_row_map (s t : State) (id : RowId) (h : s.remove id = some t) :
    t.row_map = Function.update s.row_map id none := by
  unfold State.remove at h
  split at h
  · rename_i i hi
    cases h
    exact lookup_swap_remove s.indexed hi
  · cases h

theorem State.remove_eq_none (s : State) (id : RowId) :
    s.remove id = none ↔ s.row_map id = none := by
  unfold State.remove row_map lookup
  split
  · rename_i i hi
    obtain ⟨x, hx, _⟩ := (s.indexed id i).mp hi
    simp [hi, hx]
  · rename_i hi
    simp [hi]

@[simp] theorem State.upsert_history (s : State) (row : Row) :
    (s.upsert row).history = s.history := by
  unfold State.upsert
  split <;> rfl

theorem State.remove_history (s t : State) (id : RowId) (h : s.remove id = some t) :
    t.history = s.history := by
  unfold State.remove at h
  split at h
  · cases h
    rfl
  · cases h

theorem MemPlane.upsert_row_map (p : MemPlane) (row : Row) :
    (p.upsert row).1.row_map = Function.update p.row_map row.id (some row) :=
  State.upsert_row_map p.state row

/-- After a removal the id has no row, whether it had one before or not. -/
theorem MemPlane.remove_state_row_map (p : MemPlane) (id : RowId) :
    (p.remove_state id).1.row_map = Function.update p.row_map id none := by
  unfold MemPlane.remove_state
  cases hr : p.state.remove id with
  | some state => exact State.remove_row_map p.state state id hr
  | none =>
    have hn : p.row_map id = none := (p.state.remove_eq_none id).mp hr
    rw [← hn, Function.update_eq_self]

theorem MemPlane.remove_row_map (p : MemPlane) (id : RowId) :
    (p.remove id).1.row_map = Function.update p.row_map id none := by
  rw [← p.remove_state_row_map id]
  unfold MemPlane.remove
  rcases p.remove_state id with ⟨q, entry⟩
  cases entry <;> rfl

/-! ## The patches of a run

A write that finds its row makes one patch. A plane that started empty is its
patches: it counts them, keeps the last of them, and its rows are what they make. -/

/-- The patch of a write over a map: a removal needs a row. -/
def patch_of (m : RowId → Option Row) : Write → Option RowPatch
  | .upsert row => some (.Upsert row.id row)
  | .remove id => if (m id).isSome then some (.Remove id) else none

/-- The patches of one write after another. -/
def patches_of (m : RowId → Option Row) : List Write → List RowPatch
  | [] => []
  | w :: writes =>
    match patch_of m w with
    | some patch => patch :: patches_of (fold_patches m [patch]) writes
    | none => patches_of m writes

/-- The entries of a log carry the revisions from `n + 1` on. -/
def Numbered (n : Nat) : List HistoryEntry → Prop
  | [] => True
  | e :: log => e.revision = n + 1 ∧ Numbered (n + 1) log

structure Follows (p : MemPlane) (log : List HistoryEntry) : Prop where
  numbered : Numbered 0 log
  revision : p.revision = log.length
  history : p.state.history = log.drop (log.length - p.history_cap)
  row_map : p.row_map = fold_patches (fun _ => none) (log.map HistoryEntry.patch)

theorem numbered_append (n : Nat) (a b : List HistoryEntry) :
    Numbered n (a ++ b) ↔ Numbered n a ∧ Numbered (n + a.length) b := by
  induction a generalizing n with
  | nil => simp [Numbered]
  | cons e a ih =>
    simp only [List.cons_append, Numbered, List.length_cons, ih]
    rw [show n + 1 + a.length = n + (a.length + 1) by omega, and_assoc]

theorem numbered_drop (n k : Nat) (log : List HistoryEntry) (h : Numbered n log) :
    Numbered (n + k) (log.drop k) := by
  induction log generalizing n k with
  | nil => simp [Numbered]
  | cons e log ih =>
    cases k with
    | zero => exact h
    | succ k =>
      rw [List.drop_succ_cons, show n + (k + 1) = n + 1 + k by omega]
      exact ih (n + 1) k h.2

theorem numbered_revision (n i : Nat) (log : List HistoryEntry) (e : HistoryEntry)
    (h : Numbered n log) (he : log[i]? = some e) : e.revision = n + i + 1 := by
  induction log generalizing n i with
  | nil => simp at he
  | cons d log ih =>
    cases i with
    | zero =>
      simp only [List.getElem?_cons_zero, Option.some.injEq] at he
      rw [← he, h.1]
    | succ i =>
      rw [List.getElem?_cons_succ] at he
      have hi := ih (n + 1) i h.2 he
      change (_ : Nat) = _ at hi
      change (_ : Nat) = _
      omega

/-- In a numbered log the entries after a revision are the rest of the log. -/
theorem numbered_filter (n from_ : Nat) (log : List HistoryEntry) (h : Numbered n log) :
    (log.filter fun e => e.revision > from_) = log.drop (from_ - n) := by
  induction log generalizing n with
  | nil => simp
  | cons e log ih =>
    rw [List.filter_cons, ih (n + 1) h.2, h.1]
    by_cases hn : n + 1 > from_
    · rw [if_pos (by simpa using hn), show from_ - (n + 1) = 0 by omega,
        show from_ - n = 0 by omega]
      rfl
    · rw [if_neg (by simpa using hn), show from_ - n = from_ - (n + 1) + 1 by omega]
      rfl

/-- The history keeps the end of the log. -/
theorem push_capped_drop (cap : Nat) (log : List HistoryEntry) (entry : HistoryEntry) :
    push_capped cap (log.drop (log.length - cap)) entry =
      (log ++ [entry]).drop ((log ++ [entry]).length - cap) := by
  unfold push_capped
  simp only [List.length_append, List.length_drop, List.length_singleton]
  by_cases hc : cap ≤ log.length
  · rw [if_pos (by omega), ← List.drop_append_of_le_length (by omega), List.drop_drop]
    congr 1
    omega
  · rw [if_neg (by omega), show log.length - cap = 0 by omega,
      show log.length + 1 - cap = 0 by omega]
    rfl

/-! ## One write and the log -/

theorem follows_new (column_ids : List String) : Follows (.new column_ids) [] where
  numbered := trivial
  revision := rfl
  history := rfl
  row_map := rfl

/-- A commit adds the next entry to the log. -/
theorem Follows.commit {p : MemPlane} {log : List HistoryEntry} (h : Follows p log)
    (state : State) (patch : RowPatch) (hh : state.history = p.state.history)
    (hm : state.row_map = fold_patches p.row_map [patch]) :
    Follows (p.commit state patch).1 (log ++ [(p.commit state patch).2]) where
  numbered := by
    rw [numbered_append]
    exact ⟨h.numbered, by simp [MemPlane.commit, Numbered, h.revision]⟩
  revision := by simp [MemPlane.commit, h.revision]
  history := by
    simp only [MemPlane.commit]
    rw [hh, h.history, push_capped_drop]
  row_map := by
    have hstate : (p.commit state patch).1.row_map = state.row_map := rfl
    rw [hstate, hm, h.row_map, List.map_append, fold_patches_append]
    rfl

/-- The entry of a write carries the patch of that write. -/
theorem write_state_entry (p : MemPlane) (w : Write) :
    ((p.write_state w).2.map HistoryEntry.patch) = patch_of p.row_map w := by
  cases w with
  | upsert row => rfl
  | remove id =>
    simp only [MemPlane.write_state, MemPlane.remove_state, patch_of]
    cases hr : p.state.remove id with
    | none =>
      have hn : p.row_map id = none := (p.state.remove_eq_none id).mp hr
      simp [hn]
    | some state =>
      have hn : p.row_map id ≠ none := by
        intro hn
        rw [(p.state.remove_eq_none id).mpr hn] at hr
        cases hr
      simp [MemPlane.commit, Option.isSome_iff_ne_none, hn]

theorem Follows.write_state {p : MemPlane} {log : List HistoryEntry} (h : Follows p log)
    (w : Write) : Follows (p.write_state w).1 (log ++ (p.write_state w).2.toList) := by
  cases w with
  | upsert row =>
    exact h.commit _ _ (State.upsert_history _ _) (State.upsert_row_map _ _)
  | remove id =>
    simp only [MemPlane.write_state, MemPlane.remove_state]
    cases hr : p.state.remove id with
    | none => simpa using h
    | some state =>
      exact h.commit _ _ (State.remove_history _ _ _ hr) (State.remove_row_map _ _ _ hr)

/-- The send to the subscribers touches nothing of the state. -/
theorem Follows.broadcast {p : MemPlane} {log : List HistoryEntry} (h : Follows p log)
    (patch : RowPatch) : Follows (p.broadcast patch) log :=
  ⟨h.numbered, h.revision, h.history, h.row_map⟩

theorem Follows.attach {p : MemPlane} {log : List HistoryEntry} (h : Follows p log) :
    Follows p.attach log :=
  ⟨h.numbered, h.revision, h.history, h.row_map⟩

/-- What a subscriber of an old revision gets: the rest of the log, cut where
the history ends. -/
theorem Follows.replay {p : MemPlane} {log : List HistoryEntry} (h : Follows p log)
    (from_ : Revision) :
    p.replay from_ =
      (log.drop (max from_ (log.length - p.history_cap))).map HistoryEntry.patch := by
  unfold MemPlane.replay
  have hn := numbered_drop 0 (log.length - p.history_cap) log h.numbered
  have hmax : ∀ a b : Nat, b + (a - (0 + b)) = max a b := by
    intro a b
    omega
  rw [h.history, numbered_filter _ _ _ hn, List.drop_drop, hmax]

end kaptein_viewmodel.mem_plane
