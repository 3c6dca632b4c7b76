-- The ring of changes (`watchring.rs`): what exists now and what the watch reports, in a
-- buffer that keeps the latest records.
import Kaptein.Lib.Ring
import Kaptein.Lib.Streams
import Kaptein.Object

open kube rings streams

namespace kaptein_core.watchring

structure ChangeRecord where
  event : String
  kind : String
  namespace_ : String
  name : String
  observed_at_ms : Int
  deriving DecidableEq

structure WatchRing where
  records : List ChangeRecord
  capacity : Nat
  positive : 0 < capacity
  bounded : records.length ≤ capacity

def WatchRing.new (capacity : Nat) : WatchRing where
  records := []
  capacity := max capacity 1
  positive := by omega
  bounded := Nat.zero_le _

/-- At the capacity the oldest record goes first. -/
def WatchRing.push (ring : WatchRing) (record : ChangeRecord) : WatchRing where
  records :=
    (if ring.capacity ≤ ring.records.length then ring.records.tail else ring.records) ++ [record]
  capacity := ring.capacity
  positive := ring.positive
  bounded := by
    have hpositive := ring.positive
    have hbounded := ring.bounded
    split_ifs <;> simp <;> omega

/-- Oldest first. -/
def WatchRing.snapshot (ring : WatchRing) : List ChangeRecord := ring.records

def WatchRing.push_all (ring : WatchRing) (records : List ChangeRecord) : WatchRing :=
  records.foldl WatchRing.push ring

theorem push_records (ring : WatchRing) (record : ChangeRecord) :
    (ring.push record).records = (ring.records ++ [record]).rtake ring.capacity :=
  evict_push record ring.positive ring.bounded

theorem push_all_append (ring : WatchRing) (xs ys : List ChangeRecord) :
    ring.push_all (xs ++ ys) = (ring.push_all xs).push_all ys :=
  List.foldl_append

/-- Many pushes keep the latest records. -/
theorem push_all_records (ring : WatchRing) (records : List ChangeRecord) :
    (ring.push_all records).records = (ring.records ++ records).rtake ring.capacity := by
  unfold WatchRing.push_all
  induction records generalizing ring with
  | nil => simp [rtake_of_length_le ring.bounded]
  | cons record records ih =>
    rw [List.foldl_cons, ih, push_records]
    change ((ring.records ++ [record]).rtake ring.capacity ++ records).rtake ring.capacity = _
    rw [rtake_rtake_append, List.append_assoc, List.singleton_append]

/-! ## The records -/

/-- A bookmark and an error carry no change. -/
def reduce_event (event : WatchEvent) (observed_at_ms : Int) : Option ChangeRecord :=
  let record := fun (event_name : String) (obj : DynamicObject) => {
    event := event_name
    kind := (obj.types.map TypeMeta.kind).getD ""
    namespace_ := obj.metadata.namespace_.getD ""
    name := obj.name_any
    observed_at_ms }
  match event with
  | .Added obj => some (record "Added" obj)
  | .Modified obj => some (record "Modified" obj)
  | .Deleted obj => some (record "Deleted" obj)
  | .Bookmark | .Error => none

/-- An object of the list as a record. -/
def listed_record (gvk : GroupVersionKind) (observed_at_ms : Int) (obj : DynamicObject) :
    ChangeRecord where
  event := "Added"
  kind := (obj.types.map TypeMeta.kind).getD gvk.kind
  namespace_ := obj.metadata.namespace_.getD ""
  name := obj.name_any
  observed_at_ms

structure ObjectList where
  resource_version : Option String
  items : List DynamicObject

/-- An item of the watch, with what `now_ms` reads when it comes. -/
abbrev WatchItem := Except String (WatchEvent × Int)

/-! ## The captures -/

section

variable (gvk : GroupVersionKind) (max_events : Nat)

/-- The loop over the list: the ring, the number of pushes, and whether they reach the limit. -/
def push_listed (observed_at_ms : Int) :
    List DynamicObject → WatchRing → Nat → WatchRing × Nat × Bool
  | [], ring, pushed => (ring, pushed, false)
  | obj :: rest, ring, pushed =>
    let ring := ring.push (listed_record gvk observed_at_ms obj)
    let pushed := pushed + 1
    if max_events ≤ pushed then (ring, pushed, true)
    else push_listed observed_at_ms rest ring pushed

/-- The loop over the watch. -/
def push_watched : List WatchItem → WatchRing → Nat → WatchRing × Nat
  | .ok (ev, observed_at_ms) :: rest, ring, pushed =>
    let (ring, pushed) := match reduce_event ev observed_at_ms with
      | some record => (ring.push record, pushed + 1)
      | none => (ring, pushed)
    if max_events ≤ pushed then (ring, pushed) else push_watched rest ring pushed
  | .error _ :: _, ring, pushed | [], ring, pushed => (ring, pushed)

/-- The answer to the list comes with what `now_ms` reads then. -/
def watch_into_ring (list : Except String ObjectList) (listed_ms : Int)
    (watch : String → Except String (List WatchItem)) (ring : WatchRing) :
    WatchRing × Except String Nat :=
  match list with
  | .error e => (ring, .error e)
  | .ok list =>
    match push_listed gvk max_events listed_ms list.items ring 0 with
    | (ring, pushed, true) => (ring, .ok pushed)
    | (ring, pushed, false) =>
      match watch (list.resource_version.getD "0") with
      | .error e => (ring, .error e)
      | .ok stream =>
        let (ring, pushed) := push_watched max_events stream ring pushed
        (ring, .ok pushed)

def snapshot_into_ring (list : Except String ObjectList) (listed_ms : Int) (ring : WatchRing) :
    WatchRing × Except String Nat :=
  match list with
  | .error e => (ring, .error e)
  | .ok list =>
    let (ring, pushed, _) := push_listed gvk max_events listed_ms list.items ring 0
    (ring, .ok pushed)

end

/-! ## What a capture should do -/

/-- The changes of a watch, in order. -/
def change_records (stream : List WatchItem) : List ChangeRecord :=
  (delivered stream).filterMap fun item => reduce_event item.1 item.2

/-- As many records are pushed as there are within the limit, their number is given back, they are
the first ones of the sequence, and a new ring holds the latest of them. -/
structure Captures (records : List ChangeRecord) (max_events : Nat) (ring : WatchRing)
    (out : WatchRing × Except String Nat) (pushed : Nat) : Prop where
  returned : out.2 = .ok pushed
  limited : pushed = min max_events records.length
  in_order : out.1 = ring.push_all (records.take pushed)
  latest : ∀ capacity, ring = .new capacity →
    out.1.snapshot = (records.take pushed).rtake (min (max 1 capacity) pushed)

/-- The first item of the watch is no change. -/
def QuietStart (stream : List WatchItem) : Prop :=
  ∀ ev observed_at_ms, stream.head? = some (.ok (ev, observed_at_ms)) →
    reduce_event ev observed_at_ms = none

variable {gvk : GroupVersionKind} {max_events : Nat}

/-- What a loop comes to that may push `left` more records. -/
def kept (ring : WatchRing) (pushed left : Nat) (records : List ChangeRecord) : WatchRing × Nat :=
  (ring.push_all (records.take left), pushed + min left records.length)

theorem kept_nil (ring : WatchRing) (pushed left : Nat) :
    kept ring pushed left [] = (ring, pushed) := by
  simp [kept, WatchRing.push_all]

theorem kept_last (ring : WatchRing) (pushed : Nat) (record : ChangeRecord)
    (records : List ChangeRecord) :
    kept ring pushed 1 (record :: records) = (ring.push record, pushed + 1) := by
  simp [kept, WatchRing.push_all]

theorem kept_push (ring : WatchRing) (pushed left : Nat) (record : ChangeRecord)
    (records : List ChangeRecord) :
    kept (ring.push record) (pushed + 1) left records =
      kept ring pushed (left + 1) (record :: records) := by
  unfold kept
  rw [List.take_succ_cons, List.length_cons, Nat.add_min_add_right]
  simp only [WatchRing.push_all, List.foldl_cons, Prod.mk.injEq, true_and]
  omega

theorem push_listed_eq {observed_at_ms : Int} {items : List DynamicObject} {ring : WatchRing}
    {pushed : Nat} (h : pushed < max_events) :
    push_listed gvk max_events observed_at_ms items ring pushed =
      ((kept ring pushed (max_events - pushed) (items.map (listed_record gvk observed_at_ms))).1,
        (kept ring pushed (max_events - pushed) (items.map (listed_record gvk observed_at_ms))).2,
        decide (max_events - pushed ≤ items.length)) := by
  induction items generalizing ring pushed with
  | nil =>
    have hleft : ¬ max_events - pushed ≤ 0 := by omega
    rw [List.map_nil, kept_nil, List.length_nil, decide_eq_false hleft]
    rfl
  | cons obj rest ih =>
    unfold push_listed
    rw [List.map_cons, List.length_cons]
    by_cases hfull : max_events ≤ pushed + 1
    · have hone : max_events - pushed = 1 := by omega
      rw [hone, kept_last, if_pos hfull, decide_eq_true (by omega)]
    · have hleft : max_events - pushed = max_events - (pushed + 1) + 1 := by omega
      rw [if_neg hfull, ih (by omega), hleft, ← kept_push]
      simp

theorem change_records_cons (ev : WatchEvent) (observed_at_ms : Int) (rest : List WatchItem) :
    change_records (.ok (ev, observed_at_ms) :: rest) =
      (reduce_event ev observed_at_ms).toList ++ change_records rest := by
  unfold change_records
  rw [delivered_ok, List.filterMap_cons]
  cases reduce_event ev observed_at_ms <;> rfl

theorem push_watched_eq {stream : List WatchItem} {ring : WatchRing} {pushed : Nat}
    (h : pushed < max_events) :
    push_watched max_events stream ring pushed =
      kept ring pushed (max_events - pushed) (change_records stream) := by
  induction stream generalizing ring pushed with
  | nil => exact (kept_nil _ _ _).symm
  | cons item rest ih =>
    cases item with
    | error e => exact (kept_nil _ _ _).symm
    | ok item =>
      obtain ⟨ev, observed_at_ms⟩ := item
      unfold push_watched
      rw [change_records_cons]
      cases reduce_event ev observed_at_ms with
      | none =>
        have hopen : ¬ max_events ≤ pushed := by omega
        simp only [if_neg hopen]
        exact ih h
      | some record =>
        by_cases hfull : max_events ≤ pushed + 1
        · have hone : max_events - pushed = 1 := by omega
          simp only [if_pos hfull, hone]
          exact (kept_last _ _ _ _).symm
        · have hleft : max_events - pushed = max_events - (pushed + 1) + 1 := by omega
          simp only [if_neg hfull]
          rw [ih (by omega), hleft]
          exact kept_push _ _ _ _ _

theorem kept_append_enough {xs : List ChangeRecord} {left : Nat} (h : left ≤ xs.length)
    (ring : WatchRing) (pushed : Nat) (ys : List ChangeRecord) :
    kept ring pushed left (xs ++ ys) = kept ring pushed left xs := by
  unfold kept
  rw [List.take_append_of_le_length h, List.length_append, Nat.min_eq_left h,
    Nat.min_eq_left (by omega)]

theorem kept_append {xs : List ChangeRecord} {left : Nat} (h : xs.length < left)
    (ring : WatchRing) (pushed : Nat) (ys : List ChangeRecord) :
    kept (kept ring pushed left xs).1 (kept ring pushed left xs).2 (left - xs.length) ys =
      kept ring pushed left (xs ++ ys) := by
  unfold kept
  rw [List.take_append, List.take_of_length_le (Nat.le_of_lt h), push_all_append,
    List.length_append]
  simp only [Prod.mk.injEq, true_and]
  omega

theorem snapshot_into_ring_eq (h : 0 < max_events) (list : ObjectList) (listed_ms : Int)
    (ring : WatchRing) :
    snapshot_into_ring gvk max_events (.ok list) listed_ms ring =
      ((kept ring 0 max_events (list.items.map (listed_record gvk listed_ms))).1,
        .ok (kept ring 0 max_events (list.items.map (listed_record gvk listed_ms))).2) := by
  unfold snapshot_into_ring
  dsimp only
  rw [push_listed_eq h]
  rfl

/-- The list and the watch come to one sequence of records. -/
theorem watch_into_ring_eq (h : 0 < max_events) (list : ObjectList) (listed_ms : Int)
    (stream : List WatchItem) (ring : WatchRing) :
    watch_into_ring gvk max_events (.ok list) listed_ms (fun _ => .ok stream) ring =
      ((kept ring 0 max_events (list.items.map (listed_record gvk listed_ms) ++
          change_records stream)).1,
        .ok (kept ring 0 max_events (list.items.map (listed_record gvk listed_ms) ++
          change_records stream)).2) := by
  have hlength : (list.items.map (listed_record gvk listed_ms)).length = list.items.length :=
    List.length_map _
  unfold watch_into_ring
  dsimp only
  rw [push_listed_eq h, Nat.sub_zero]
  by_cases hfull : max_events ≤ list.items.length
  · rw [decide_eq_true hfull, kept_append_enough (by omega)]
  · rw [decide_eq_false hfull]
    have hopen : (kept ring 0 max_events
        (list.items.map (listed_record gvk listed_ms))).2 < max_events := by
      unfold kept
      omega
    have hleft : max_events - (kept ring 0 max_events
        (list.items.map (listed_record gvk listed_ms))).2 =
          max_events - (list.items.map (listed_record gvk listed_ms)).length := by
      unfold kept
      omega
    simp only [push_watched_eq hopen]
    rw [hleft, kept_append (by omega)]

theorem captures_kept (records : List ChangeRecord) (max_events : Nat) (ring : WatchRing) :
    Captures records max_events ring
      ((kept ring 0 max_events records).1, .ok (kept ring 0 max_events records).2)
      (min max_events records.length) where
  returned := by
    unfold kept
    rw [Nat.zero_add]
  limited := rfl
  in_order := by
    rw [← List.take_eq_take_min]
    rfl
  latest := by
    rintro capacity rfl
    have hlength : (records.take max_events).length = min max_events records.length :=
      List.length_take
    change (WatchRing.push_all (.new capacity) (records.take max_events)).records = _
    rw [push_all_records, ← List.take_eq_take_min, ← hlength]
    rw [rtake_min_length, Nat.max_comm]
    rfl

theorem captures_nothing (records : List ChangeRecord) (ring : WatchRing) :
    Captures records 0 ring (ring, .ok 0) 0 := by
  have h := captures_kept records 0 ring
  rwa [Nat.zero_min] at h

/-- With the limit zero the loops ask after the first push. -/
theorem push_listed_zero (observed_at_ms : Int) (items : List DynamicObject) (ring : WatchRing) :
    (push_listed gvk 0 observed_at_ms items ring 0).2.1 = 0 ↔ items = [] := by
  cases items <;> simp [push_listed]

theorem push_watched_zero (stream : List WatchItem) (ring : WatchRing) :
    (push_watched 0 stream ring 0).2 = 0 ↔ QuietStart stream := by
  unfold QuietStart
  cases stream with
  | nil => simp [push_watched]
  | cons item rest =>
    cases item with
    | error e => simp [push_watched]
    | ok item =>
      obtain ⟨ev, observed_at_ms⟩ := item
      cases hreduce : reduce_event ev observed_at_ms <;> simp [push_watched, hreduce]

theorem push_watched_quiet {stream : List WatchItem} (h : QuietStart stream) (ring : WatchRing) :
    push_watched 0 stream ring 0 = (ring, 0) := by
  cases stream with
  | nil => rfl
  | cons item rest =>
    cases item with
    | error e => rfl
    | ok item =>
      obtain ⟨ev, observed_at_ms⟩ := item
      unfold push_watched
      rw [h ev observed_at_ms rfl]
      rfl

/-- Both captures stay within their limit, and leave the latest of what they have pushed,
exactly when the limit is above zero or nothing is there to be pushed first. -/
theorem captures_keep_the_latest_iff (gvk : GroupVersionKind) (max_events : Nat)
    (list : ObjectList) (listed_ms : Int) (stream : List WatchItem) (ring : WatchRing) :
    (∃ pushed, Captures
        (list.items.map (listed_record gvk listed_ms) ++ change_records stream) max_events ring
        (watch_into_ring gvk max_events (.ok list) listed_ms (fun _ => .ok stream) ring) pushed) ∧
      (∃ pushed, Captures (list.items.map (listed_record gvk listed_ms)) max_events ring
        (snapshot_into_ring gvk max_events (.ok list) listed_ms ring) pushed) ↔
      0 < max_events ∨ list.items = [] ∧ QuietStart stream := by
  rcases Nat.eq_zero_or_pos max_events with rfl | hpos
  · constructor
    · rintro ⟨⟨watched, hwatch⟩, ⟨listed, hsnapshot⟩⟩
      obtain rfl := hwatch.limited.trans (Nat.zero_min _)
      obtain rfl := hsnapshot.limited.trans (Nat.zero_min _)
      have hitems : list.items = [] :=
        (push_listed_zero listed_ms list.items ring).mp (Except.ok.inj hsnapshot.returned)
      refine Or.inr ⟨hitems, (push_watched_zero stream ring).mp ?_⟩
      have hreturned := hwatch.returned
      unfold watch_into_ring at hreturned
      dsimp only at hreturned
      rw [hitems] at hreturned
      exact Except.ok.inj hreturned
    · rintro (hpos | ⟨hitems, hquiet⟩)
      · exact absurd hpos (Nat.lt_irrefl 0)
      · refine ⟨⟨0, ?_⟩, ⟨0, ?_⟩⟩
        · unfold watch_into_ring
          dsimp only
          rw [hitems]
          simp only [push_listed, push_watched_quiet hquiet]
          exact captures_nothing _ _
        · unfold snapshot_into_ring
          dsimp only
          rw [hitems]
          exact captures_nothing _ _
  · rw [watch_into_ring_eq hpos, snapshot_into_ring_eq hpos]
    exact ⟨fun _ => Or.inl hpos, fun _ => ⟨⟨_, captures_kept _ _ _⟩, ⟨_, captures_kept _ _ _⟩⟩⟩

/-- The list of one config map. -/
def one_listed : ObjectList where
  resource_version := some "7"
  items := [{ types := none, metadata := { name := some "a" }, data := .object [] }]

/-- A watch that should stop after no change event pushes the listed object. -/
theorem a_limit_of_zero_pushes_one :
    ¬ ∃ pushed, Captures
      (one_listed.items.map (listed_record ⟨"", "v1", "ConfigMap"⟩ 5) ++ change_records []) 0
      (.new 1) (watch_into_ring ⟨"", "v1", "ConfigMap"⟩ 0 (.ok one_listed) 5 (fun _ => .ok [])
        (.new 1)) pushed := by
  rintro ⟨pushed, h⟩
  obtain rfl := h.limited.trans (Nat.zero_min _)
  have hreturned := Except.ok.inj h.returned
  exact absurd hreturned (by decide)

end kaptein_core.watchring
