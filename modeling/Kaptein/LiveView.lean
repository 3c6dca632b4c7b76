-- The watch loop of a live plane (`watch_loop`) beside an API server that changes all the
-- time. The server is a log of changes: a list is a snapshot that is fetched page by page,
-- and a watch delivers the changes after a position of the log.
import Kaptein.CellOrder
import Kaptein.Lib.Runs
import Kaptein.LivePlane
import Kaptein.PlaneRows
import Kaptein.Query
import Kaptein.Store
import Mathlib.Data.List.Dedup

open kube patches runs rust_slice kaptein_viewmodel kaptein_viewmodel.mem_plane
open kaptein_viewmodel.table
open kaptein_core.store (Change)

namespace kaptein_integration.live_view

/-- The objects that exist after a log of changes, each under its uid. -/
def existing (log : List Change) : String → Option DynamicObject :=
  cluster_after [] (log.map Change.event)

def object_of : Change → DynamicObject
  | .Added obj | .Modified obj | .Deleted obj => obj

/-! ## The loop -/

/-- Where the loop waits for something. A position is the place of the log that the resource
version of a list stands for. -/
inductive Phase where
  | Backoff
  | Listing (pos : Nat) (rest : List DynamicObject) (live_ids : List RowId)
  | Listed (pos : Nat)
  | Watching (pos : Nat)
  | Returned (pos : Option Nat)

/-- A loop that was denied its watch lists once and returns. -/
structure System where
  log : List Change
  plane : LivePlane
  granted : Bool
  phase : Phase

inductive Action where
  | Change (c : Change)
  /-- The server takes a snapshot, and will list its objects in the order of these uids. -/
  | List (uids : List String)
  /-- A page of some objects. With `more` it has a continue token. -/
  | Page (n : Nat) (more : Bool)
  | ListFails
  | WatchOpens
  | WatchFails
  | Deliver
  | Bookmark
  | InBandError
  | StreamEnds

def start (p : LivePlane) (granted : Bool) (log : List Change) : System where
  log := log
  plane := p
  granted := granted
  phase := .Backoff

/-- Every object that the log names has its place in the order. -/
def Orders (uids : List String) (log : List Change) : Prop :=
  uids.Nodup ∧ ∀ c ∈ log, uid_of (object_of c) ∈ uids

instance (uids : List String) (log : List Change) : Decidable (Orders uids log) :=
  inferInstanceAs (Decidable (_ ∧ _))

def snapshot (log : List Change) (uids : List String) : List DynamicObject :=
  uids.filterMap (existing log)

variable [serde_json.FloatText]

def step (s : System) : Action → Option System
  | .Change c => some { s with log := s.log ++ [c] }
  | .List uids =>
    match s.phase with
    | .Backoff =>
      if Orders uids s.log then
        some { s with phase := .Listing s.log.length (snapshot s.log uids) [] }
      else none
    | _ => none
  | .Page n more =>
    match s.phase with
    | .Listing pos rest live_ids =>
      let (plane, live_ids) := s.plane.relist_items live_ids (rest.take n)
      if more then some { s with plane, phase := .Listing pos (rest.drop n) live_ids }
      else if rest.length ≤ n then
        some { s with
          plane := plane.drop_absent live_ids plane.mem.rows
          phase := if s.granted then .Listed pos else .Returned (some pos) }
      else none
    | _ => none
  | .ListFails =>
    match s.phase with
    | .Listing _ _ _ => some { s with phase := if s.granted then .Backoff else .Returned none }
    | _ => none
  | .WatchOpens =>
    match s.phase with
    | .Listed pos => some { s with phase := .Watching pos }
    | _ => none
  | .WatchFails =>
    match s.phase with
    | .Listed _ => some { s with phase := .Backoff }
    | _ => none
  | .Deliver =>
    match s.phase with
    | .Watching pos =>
      s.log[pos]?.map fun c =>
        { s with plane := s.plane.apply_event c.event, phase := .Watching (pos + 1) }
    | _ => none
  | .Bookmark =>
    match s.phase with
    | .Watching _ => some { s with plane := s.plane.apply_event .Bookmark }
    | _ => none
  | .InBandError =>
    match s.phase with
    | .Watching _ => some { s with plane := s.plane.apply_event .Error }
    | _ => none
  | .StreamEnds =>
    match s.phase with
    | .Watching _ => some { s with phase := .Backoff }
    | _ => none

/-! ## The objects of the server -/

omit [serde_json.FloatText] in
theorem existing_append (log : List Change) (c : Change) :
    existing (log ++ [c]) = applyAll (existing log) (object_patch c.event).toList := by
  unfold existing cluster_after
  rw [List.map_append, List.filterMap_append, applyAll_append]
  cases c <;> rfl

omit [serde_json.FloatText] in
/-- An object that exists was put there by a change, and stands under its uid. -/
theorem existing_eq_some {log : List Change} {uid : String} {obj : DynamicObject}
    (h : existing log uid = some obj) : uid_of obj = uid ∧ ∃ c ∈ log, object_of c = obj := by
  rcases applyAll_eq_some _ _ h with hnone | hset
  · cases hnone
  · obtain ⟨event, hevent, hpatch⟩ := List.mem_filterMap.mp hset
    obtain ⟨c, hc, rfl⟩ := List.mem_map.mp hevent
    cases c with
    | Added o | Modified o =>
      cases hpatch
      exact ⟨rfl, _, hc, rfl⟩
    | Deleted o => cases hpatch

omit [serde_json.FloatText] in
theorem mem_snapshot {log : List Change} {uids : List String} {obj : DynamicObject}
    (h : obj ∈ snapshot log uids) : ∃ c ∈ log, object_of c = obj := by
  obtain ⟨uid, -, hobj⟩ := List.mem_filterMap.mp h
  exact (existing_eq_some hobj).2

omit [serde_json.FloatText] in
/-- A snapshot lists the objects that exist, each once. -/
theorem snapshot_pairs {log : List Change} {uids : List String} (h : Orders uids log) :
    applyAll (fun _ => none) ((snapshot log uids).map fun obj => .Set (uid_of obj) obj) =
      existing log := by
  have hkeys : ((snapshot log uids).map uid_of).Nodup := by
    refine List.Nodup.sublist ?_ h.1
    have hids : (snapshot log uids).map uid_of =
        uids.filterMap fun uid => (existing log uid).map uid_of := by
      rw [snapshot, List.map_filterMap]
    rw [hids]
    clear hids h
    induction uids with
    | nil => exact List.Sublist.slnil
    | cons uid uids ih =>
      rw [List.filterMap_cons]
      cases hobj : existing log uid with
      | none => exact ih.cons _
      | some obj =>
        simp only [Option.map_some, (existing_eq_some hobj).1]
        exact ih.cons_cons _
  have hpairs : ((snapshot log uids).map fun obj => Patch.Set (uid_of obj) obj) =
      ((snapshot log uids).map fun obj => (uid_of obj, obj)).map fun q => .Set q.1 q.2 := by
    rw [List.map_map]
    rfl
  funext uid
  refine Option.ext fun obj => ?_
  rw [hpairs, applyAll_sets_eq_some _ (by rwa [List.map_map]), List.mem_map]
  constructor
  · rintro ⟨o, ho, heq⟩
    cases heq
    obtain ⟨uid, -, hobj⟩ := List.mem_filterMap.mp ho
    rwa [(existing_eq_some hobj).1]
  · intro hobj
    obtain ⟨hid, c, hc, rfl⟩ := existing_eq_some hobj
    refine ⟨_, List.mem_filterMap.mpr ⟨uid, ?_, hobj⟩, by rw [hid]⟩
    rw [← hid]
    exact h.2 c hc

/-! ## The invariant -/

/-- The rows are those of the objects that existed at a position of the log. -/
def Shows (s : System) (pos : Nat) : Prop :=
  pos ≤ s.log.length ∧
    s.plane.row_map = fun id => (existing (s.log.take pos) id).map s.plane.map_object

/-- Some of a snapshot is in the plane, and the rest of it is to come. -/
def Collects (s : System) (pos : Nat) (rest : List DynamicObject) (live_ids : List RowId) : Prop :=
  pos ≤ s.log.length ∧
  ∃ uids done m, Orders uids (s.log.take pos) ∧ snapshot (s.log.take pos) uids = done ++ rest ∧
    s.plane.row_map = applyAll m (done.map s.plane.set_patch) ∧
    ∀ id, id ∈ live_ids ↔ id ∈ touched (done.map s.plane.set_patch)

def InPhase (s : System) : Phase → Prop
  | .Backoff | .Returned none => True
  | .Listing pos rest live_ids => Collects s pos rest live_ids
  | .Listed pos | .Watching pos | .Returned (some pos) => Shows s pos

/-- A row that the plane had at the start, or the row of an object of the server. -/
def Known (p : LivePlane) (log : List Change) (row : Row) : Prop :=
  row ∈ p.mem.rows ∨ ∃ c ∈ log, row = p.map_object (object_of c)

structure Inv (p : LivePlane) (s : System) : Prop where
  renders : s.plane.map_object = p.map_object
  runs_on : s.granted = true → ∀ pos, s.phase ≠ .Returned pos
  known : ∀ id row, s.plane.row_map id = some row → Known p s.log row
  in_phase : InPhase s s.phase

theorem map_object_congr {p q : LivePlane} (hgvk : p.gvk = q.gvk) (hlens : p.lens = q.lens) :
    p.map_object = q.map_object := by
  funext obj
  simp only [LivePlane.map_object, hgvk, hlens]

theorem set_patch_congr {p q : LivePlane} (h : p.map_object = q.map_object) :
    p.set_patch = q.set_patch := by
  funext obj
  simp only [LivePlane.set_patch, h]

/-- What a plane shows came from the objects of the log. -/
theorem Shows.known {s : System} {pos : Nat} (h : Shows s pos) {id : RowId} {row : Row}
    (hrow : s.plane.row_map id = some row) :
    ∃ c ∈ s.log, row = s.plane.map_object (object_of c) := by
  rw [h.2] at hrow
  obtain ⟨obj, hobj, rfl⟩ := Option.map_eq_some_iff.mp hrow
  obtain ⟨-, c, hc, rfl⟩ := existing_eq_some hobj
  exact ⟨c, List.mem_of_mem_take hc, rfl⟩

/-- A change of the server leaves the earlier positions as they were. -/
theorem inPhase_change {s : System} {phase : Phase} (h : InPhase s phase) (c : Change) :
    InPhase { s with log := s.log ++ [c] } phase := by
  have htake {pos : Nat} (hpos : pos ≤ s.log.length) :
      (s.log ++ [c]).take pos = s.log.take pos := List.take_append_of_le_length hpos
  have hlen {pos : Nat} (hpos : pos ≤ s.log.length) : pos ≤ (s.log ++ [c]).length := by
    rw [List.length_append]
    omega
  have hshows {pos : Nat} (h : Shows s pos) : Shows { s with log := s.log ++ [c] } pos := by
    refine ⟨hlen h.1, ?_⟩
    show s.plane.row_map = fun id => (existing ((s.log ++ [c]).take pos) id).map _
    rw [htake h.1]
    exact h.2
  cases phase with
  | Backoff => trivial
  | Listing pos rest live_ids =>
    obtain ⟨hpos, uids, done, m, horders, hsnap, hrest⟩ := h
    refine ⟨hlen hpos, uids, done, m, ?_, ?_, hrest⟩
    · show Orders uids ((s.log ++ [c]).take pos)
      rwa [htake hpos]
    · show snapshot ((s.log ++ [c]).take pos) uids = _
      rwa [htake hpos]
  | Listed pos => exact hshows h
  | Watching pos => exact hshows h
  | Returned pos =>
    cases pos with
    | none => trivial
    | some pos => exact hshows h

theorem collects_list (s : System) {uids : List String} (h : Orders uids s.log) :
    Collects s s.log.length (snapshot s.log uids) [] := by
  refine ⟨Nat.le_refl _, uids, [], s.plane.row_map, ?_, ?_, rfl, ?_⟩
  · rwa [List.take_length]
  · rw [List.take_length]
    rfl
  · intro id
    simp [touched]

/-- A page moves objects of the snapshot into the plane. -/
theorem collects_page {s : System} {pos : Nat} {rest : List DynamicObject} {live_ids : List RowId}
    (h : Collects s pos rest live_ids) (n : Nat) :
    let page := s.plane.relist_items live_ids (rest.take n)
    page.1.map_object = s.plane.map_object ∧
      Collects { s with plane := page.1 } pos (rest.drop n) page.2 := by
  intro page
  obtain ⟨hpos, uids, done, m, horders, hsnap, hmap, hids⟩ := h
  obtain ⟨hmap', hids', hgvk, hlens⟩ := relist_items_spec s.plane live_ids (rest.take n)
  have hobj : page.1.map_object = s.plane.map_object := map_object_congr hgvk hlens
  refine ⟨hobj, hpos, uids, done ++ rest.take n, m, horders, ?_, ?_, ?_⟩
  · rw [List.append_assoc, List.take_append_drop]
    exact hsnap
  · show page.1.row_map = applyAll m ((done ++ rest.take n).map page.1.set_patch)
    rw [set_patch_congr hobj, hmap', hmap, List.map_append, applyAll_append]
  · intro id
    show id ∈ page.2 ↔ id ∈ touched ((done ++ rest.take n).map page.1.set_patch)
    rw [set_patch_congr hobj, hids', hids, List.map_append, touched, touched, touched,
      List.map_append, List.mem_append]

/-- With the whole snapshot in it, the plane drops the rows of no object, and shows the
objects of the snapshot. -/
theorem shows_last_page {s : System} {pos : Nat} {live_ids : List RowId}
    (h : Collects s pos [] live_ids) (hid : ∀ c ∈ s.log, Identified (object_of c)) :
    (s.plane.drop_absent live_ids s.plane.mem.rows).map_object = s.plane.map_object ∧
      Shows { s with plane := s.plane.drop_absent live_ids s.plane.mem.rows } pos := by
  obtain ⟨hpos, uids, done, m, horders, hsnap, hmap, hids⟩ := h
  rw [List.append_nil] at hsnap
  have hdrop := drop_absent_spec s.plane live_ids s.plane.mem.rows ""
  have hobj : (s.plane.drop_absent live_ids s.plane.mem.rows).map_object = s.plane.map_object :=
    map_object_congr hdrop.2.1 hdrop.2.2
  refine ⟨hobj, hpos, ?_⟩
  show (s.plane.drop_absent live_ids s.plane.mem.rows).row_map =
    fun id => (existing (s.log.take pos) id).map
      (s.plane.drop_absent live_ids s.plane.mem.rows).map_object
  have hpatches : done.map s.plane.set_patch =
      (done.map fun obj => .Set (uid_of obj) obj).map (Patch.map s.plane.map_object) := by
    rw [List.map_map]
    refine List.map_congr_left fun obj hobj => ?_
    rw [← hsnap] at hobj
    obtain ⟨c, hc, rfl⟩ := mem_snapshot hobj
    exact set_patch_eq s.plane _ (hid c (List.mem_of_mem_take hc))
  have hnone : (fun _ => none : RowId → Option Row) =
      fun id => ((fun _ => none : String → Option DynamicObject) id).map s.plane.map_object := rfl
  rw [hobj, drop_absent_of_touched s.plane live_ids m _ hmap hids, hpatches, hnone, applyAll_map,
    ← snapshot_pairs horders, hsnap]

/-- A delivered change moves the plane one position on. -/
theorem shows_deliver {s : System} {pos : Nat} {c : Change} (h : Shows s pos)
    (hc : s.log[pos]? = some c) (hid : Identified (object_of c)) :
    (s.plane.apply_event c.event).map_object = s.plane.map_object ∧
      Shows { s with plane := s.plane.apply_event c.event } (pos + 1) := by
  obtain ⟨hlt, hget⟩ := List.getElem?_eq_some_iff.mp hc
  obtain ⟨hmap, hgvk, hlens⟩ := apply_event_spec s.plane c.event (by
    intro obj hobj
    cases c <;> (cases hobj; exact hid))
  have hobj : (s.plane.apply_event c.event).map_object = s.plane.map_object :=
    map_object_congr hgvk hlens
  refine ⟨hobj, hlt, ?_⟩
  show (s.plane.apply_event c.event).row_map =
    fun id => (existing (s.log.take (pos + 1)) id).map (s.plane.apply_event c.event).map_object
  rw [hobj, hmap, h.2, applyAll_map, List.take_add_one, hc, Option.toList_some, existing_append]

/-! ## What a step can do -/

inductive Moves (s : System) : Action → System → Prop
  | change (c : Change) : Moves s (.Change c) { s with log := s.log ++ [c] }
  | list {uids : List String} (hphase : s.phase = .Backoff) (horders : Orders uids s.log) :
    Moves s (.List uids) { s with phase := .Listing s.log.length (snapshot s.log uids) [] }
  | page {pos : Nat} {rest : List DynamicObject} {live_ids : List RowId} (n : Nat)
    (hphase : s.phase = .Listing pos rest live_ids) :
    Moves s (.Page n true) { s with
      plane := (s.plane.relist_items live_ids (rest.take n)).1
      phase := .Listing pos (rest.drop n) (s.plane.relist_items live_ids (rest.take n)).2 }
  | last_page {pos n : Nat} {rest : List DynamicObject} {live_ids : List RowId}
    {page : LivePlane × List RowId} (hphase : s.phase = .Listing pos rest live_ids)
    (hlast : rest.length ≤ n) (hpage : s.plane.relist_items live_ids (rest.take n) = page) :
    Moves s (.Page n false) { s with
      plane := page.1.drop_absent page.2 page.1.mem.rows
      phase := if s.granted then .Listed pos else .Returned (some pos) }
  | list_fails {pos : Nat} {rest : List DynamicObject} {live_ids : List RowId}
    (hphase : s.phase = .Listing pos rest live_ids) :
    Moves s .ListFails { s with phase := if s.granted then .Backoff else .Returned none }
  | watch_opens {pos : Nat} (hphase : s.phase = .Listed pos) :
    Moves s .WatchOpens { s with phase := .Watching pos }
  | watch_fails {pos : Nat} (hphase : s.phase = .Listed pos) :
    Moves s .WatchFails { s with phase := .Backoff }
  | deliver {pos : Nat} {c : Change} (hphase : s.phase = .Watching pos)
    (hc : s.log[pos]? = some c) :
    Moves s .Deliver { s with plane := s.plane.apply_event c.event, phase := .Watching (pos + 1) }
  | bookmark {pos : Nat} (hphase : s.phase = .Watching pos) : Moves s .Bookmark s
  | in_band_error {pos : Nat} (hphase : s.phase = .Watching pos) : Moves s .InBandError s
  | stream_ends {pos : Nat} (hphase : s.phase = .Watching pos) :
    Moves s .StreamEnds { s with phase := .Backoff }

theorem moves_of_step {s t : System} {a : Action} (h : step s a = some t) : Moves s a t := by
  cases a with
  | Change c =>
    cases h
    exact .change c
  | List uids =>
    simp only [step] at h
    split at h
    · rename_i hphase
      split at h
      · rename_i horders
        cases h
        exact .list hphase horders
      · cases h
    · cases h
  | Page n more =>
    simp only [step] at h
    split at h
    · rename_i hphase
      cases more with
      | true =>
        cases h
        exact .page n hphase
      | false =>
        rw [if_neg Bool.false_ne_true] at h
        split at h
        · rename_i hlast
          cases h
          exact .last_page hphase hlast rfl
        · cases h
    · cases h
  | Deliver =>
    simp only [step] at h
    split at h
    · rename_i hphase
      obtain ⟨c, hc, rfl⟩ := Option.map_eq_some_iff.mp h
      exact .deliver hphase hc
    · cases h
  | ListFails =>
    simp only [step] at h
    split at h
    · rename_i hphase
      cases h
      exact .list_fails hphase
    · cases h
  | WatchOpens =>
    simp only [step] at h
    split at h
    · rename_i hphase
      cases h
      exact .watch_opens hphase
    · cases h
  | WatchFails =>
    simp only [step] at h
    split at h
    · rename_i hphase
      cases h
      exact .watch_fails hphase
    · cases h
  | Bookmark =>
    simp only [step] at h
    split at h
    · rename_i hphase
      cases h
      exact .bookmark hphase
    · cases h
  | InBandError =>
    simp only [step] at h
    split at h
    · rename_i hphase
      cases h
      exact .in_band_error hphase
    · cases h
  | StreamEnds =>
    simp only [step] at h
    split at h
    · rename_i hphase
      cases h
      exact .stream_ends hphase
    · cases h

/-- The log only grows. -/
theorem log_prefix_step {s t : System} {a : Action} (h : step s a = some t) : s.log <+: t.log := by
  cases moves_of_step h with
  | change c => exact List.prefix_append _ _
  | list | page | last_page | list_fails | watch_opens | watch_fails | deliver | bookmark
  | in_band_error | stream_ends => exact List.prefix_refl _

theorem Inv.of_shows {p : LivePlane} {s t : System} {pos : Nat} (h : Inv p s)
    (hobj : t.plane.map_object = s.plane.map_object)
    (hruns : t.granted = true → ∀ pos, t.phase ≠ .Returned pos) (hshows : Shows t pos)
    (hphase : InPhase t t.phase) : Inv p t := by
  refine ⟨hobj.trans h.renders, hruns, ?_, hphase⟩
  intro id row hrow
  obtain ⟨c, hc, rfl⟩ := hshows.known hrow
  refine .inr ⟨c, hc, ?_⟩
  rw [hobj, h.renders]

/-- Every step keeps the invariant, whatever the server does in between. -/
theorem inv_step {p : LivePlane} {s t : System} {a : Action} (h : Inv p s)
    (ht : step s a = some t) (hid : ∀ c ∈ t.log, Identified (object_of c)) : Inv p t := by
  have hin := h.in_phase
  cases moves_of_step ht with
  | change c =>
    refine ⟨h.renders, h.runs_on, ?_, inPhase_change hin c⟩
    intro id row hrow
    rcases h.known id row hrow with hold | ⟨d, hd, hrow⟩
    · exact .inl hold
    · exact .inr ⟨d, List.mem_append_left _ hd, hrow⟩
  | list hphase horders =>
    exact ⟨h.renders, fun _ _ => nofun, h.known, collects_list s horders⟩
  | @page pos rest live_ids n hphase =>
    rw [hphase] at hin
    obtain ⟨hobj, hcollects⟩ := collects_page hin n
    refine ⟨hobj.trans h.renders, fun _ _ => nofun, ?_, hcollects⟩
    intro id row hrow
    obtain ⟨hmap, -, -, -⟩ := relist_items_spec s.plane live_ids (rest.take n)
    rcases applyAll_eq_some _ _ (hmap ▸ hrow) with hold | hnew
    · exact h.known id row hold
    · obtain ⟨obj, hmem, hpatch⟩ := List.mem_map.mp hnew
      cases hpatch
      obtain ⟨-, uids, done, m, -, hsnap, -, -⟩ := hin
      have hobj : obj ∈ snapshot (s.log.take pos) uids := by
        rw [hsnap]
        exact List.mem_append_right _ (List.mem_of_mem_take hmem)
      obtain ⟨c, hc, rfl⟩ := mem_snapshot hobj
      refine .inr ⟨c, List.mem_of_mem_take hc, ?_⟩
      rw [h.renders]
  | last_page hphase hlast hpage =>
    rw [hphase] at hin
    subst hpage
    obtain ⟨hobj, hcollects⟩ := collects_page hin _
    rw [List.drop_eq_nil_of_le hlast] at hcollects
    obtain ⟨hobj', hshows⟩ := shows_last_page hcollects hid
    refine h.of_shows (hobj'.trans hobj) ?_ hshows ?_
    · intro hgranted pos
      rw [if_pos hgranted]
      exact nofun
    · cases s.granted with
      | true => exact hshows
      | false => exact hshows
  | list_fails hphase =>
    refine ⟨h.renders, ?_, h.known, ?_⟩
    · intro hgranted pos
      rw [if_pos hgranted]
      exact nofun
    · cases s.granted with
      | true => trivial
      | false => trivial
  | watch_opens hphase =>
    rw [hphase] at hin
    exact ⟨h.renders, fun _ _ => nofun, h.known, hin⟩
  | deliver hphase hc =>
    rw [hphase] at hin
    obtain ⟨hobj, hshows⟩ := shows_deliver hin hc (hid _ (List.mem_of_getElem? hc))
    exact h.of_shows hobj (fun _ _ => nofun) hshows hshows
  | bookmark hphase | in_band_error hphase => exact h
  | watch_fails hphase | stream_ends hphase =>
    exact ⟨h.renders, fun _ _ => nofun, h.known, trivial⟩

/-- The loop is at this position or will list at a later one. -/
def AtLeast (pos : Nat) (s : System) : Prop :=
  match s.phase with
  | .Backoff | .Returned none => pos ≤ s.log.length
  | .Listing p _ _ | .Listed p | .Watching p | .Returned (some p) => pos ≤ p ∧ p ≤ s.log.length

omit [serde_json.FloatText] in
theorem AtLeast.change {pos : Nat} {s : System} (h : AtLeast pos s) (c : Change) :
    AtLeast pos { s with log := s.log ++ [c] } := by
  have hlen : s.log.length ≤ (s.log ++ [c]).length := by simp
  revert h
  unfold AtLeast
  cases s.phase with
  | Backoff => exact fun h => h.trans hlen
  | Listing | Listed | Watching => exact fun h => ⟨h.1, h.2.trans hlen⟩
  | Returned p =>
    cases p with
    | none => exact fun h => h.trans hlen
    | some p => exact fun h => ⟨h.1, h.2.trans hlen⟩

theorem atLeast_step {pos : Nat} {s t : System} {a : Action} (h : AtLeast pos s)
    (ht : step s a = some t) : AtLeast pos t := by
  cases moves_of_step ht with
  | change c => exact h.change c
  | bookmark hphase | in_band_error hphase => exact h
  | list hphase _ =>
    rw [AtLeast, hphase] at h
    exact ⟨h, Nat.le_refl _⟩
  | page _ hphase | watch_opens hphase =>
    rw [AtLeast, hphase] at h
    exact h
  | last_page hphase _ _ =>
    rw [AtLeast, hphase] at h
    rw [AtLeast]
    cases s.granted with
    | true => exact h
    | false => exact h
  | list_fails hphase =>
    rw [AtLeast, hphase] at h
    rw [AtLeast]
    cases s.granted with
    | true => exact h.1.trans h.2
    | false => exact h.1.trans h.2
  | deliver hphase hc =>
    rw [AtLeast, hphase] at h
    exact ⟨h.1.trans (Nat.le_succ _), (List.getElem?_eq_some_iff.mp hc).1⟩
  | watch_fails hphase | stream_ends hphase =>
    rw [AtLeast, hphase] at h
    exact h.1.trans h.2

/-! ## Runs -/

theorem log_prefix_run {s t : System} {as : List Action} (h : exec step s as = some t) :
    s.log <+: t.log := by
  induction as generalizing s with
  | nil =>
    cases h
    exact List.prefix_refl _
  | cons a as ih =>
    obtain ⟨u, hu, hrest⟩ := Option.bind_eq_some_iff.mp h
    exact (log_prefix_step hu).trans (ih hrest)

theorem inv_run {p : LivePlane} {s t : System} {as : List Action} (h : Inv p s)
    (ht : exec step s as = some t) (hid : ∀ c ∈ t.log, Identified (object_of c)) : Inv p t := by
  induction as generalizing s with
  | nil =>
    cases ht
    exact h
  | cons a as ih =>
    obtain ⟨u, hu, hrest⟩ := Option.bind_eq_some_iff.mp ht
    exact ih (inv_step h hu fun c hc => hid c ((log_prefix_run hrest).subset hc)) hrest

theorem atLeast_run {pos : Nat} {s t : System} {as : List Action} (h : AtLeast pos s)
    (ht : exec step s as = some t) : AtLeast pos t := by
  induction as generalizing s with
  | nil =>
    cases ht
    exact h
  | cons a as ih =>
    obtain ⟨u, hu, hrest⟩ := Option.bind_eq_some_iff.mp ht
    exact ih (atLeast_step h hu) hrest

theorem inv_start (p : LivePlane) (granted : Bool) (log : List Change) :
    Inv p (start p granted log) := by
  refine ⟨rfl, fun _ _ => nofun, ?_, trivial⟩
  intro id row hrow
  have hid := State.row_map_id _ id row hrow
  subst hid
  exact .inl ((State.mem_rows _ row).mpr hrow)

omit [serde_json.FloatText] in
/-- The server has an order for its objects. -/
theorem orders_dedup (log : List Change) :
    Orders ((log.map fun c => uid_of (object_of c)).dedup) log :=
  ⟨List.nodup_dedup _, fun _ hc => List.mem_dedup.mpr (List.mem_map_of_mem hc)⟩

/-- From the backoff the loop comes to the end of the log while the server rests. -/
theorem relists {s : System} (hgranted : s.granted = true) (hphase : s.phase = .Backoff) :
    ∃ as t, (∀ c, .Change c ∉ as) ∧ exec step s as = some t ∧ t.log = s.log ∧
      t.phase = .Watching s.log.length := by
  let uids := (s.log.map fun c => uid_of (object_of c)).dedup
  have hlist : step s (.List uids) =
      some { s with phase := .Listing s.log.length (snapshot s.log uids) [] } := by
    simp only [step, hphase]
    rw [if_pos (orders_dedup s.log)]
  let page := s.plane.relist_items []
    ((snapshot s.log uids).take (snapshot s.log uids).length)
  have hpage : step { s with phase := .Listing s.log.length (snapshot s.log uids) [] }
      (.Page (snapshot s.log uids).length false) =
        some { s with
          plane := page.1.drop_absent page.2 page.1.mem.rows
          phase := .Listed s.log.length } := by
    simp only [step, hgranted, Nat.le_refl, if_true, if_false, Bool.false_eq_true]
    rfl
  refine ⟨[.List uids, .Page (snapshot s.log uids).length false, .WatchOpens], { s with
    plane := page.1.drop_absent page.2 page.1.mem.rows
    phase := .Watching s.log.length }, by simp, ?_, rfl, rfl⟩
  rw [exec_cons, hlist, Option.bind_some, exec_cons, hpage]
  rfl

/-- A loop that keeps its watch can always come back to the end of the log. -/
theorem catches_up {s : System} (hgranted : s.granted = true)
    (hruns : ∀ pos, s.phase ≠ .Returned pos) :
    ∃ as t, (∀ c, .Change c ∉ as) ∧ exec step s as = some t ∧ t.log = s.log ∧
      t.phase = .Watching s.log.length := by
  -- whatever the loop waits for may fail
  have hfail : ∃ as t, (∀ c, .Change c ∉ as) ∧ exec step s as = some t ∧ t.log = s.log ∧
      t.granted = true ∧ t.phase = .Backoff := by
    cases hphase : s.phase with
    | Backoff => exact ⟨[], s, nofun, rfl, rfl, hgranted, hphase⟩
    | Listing pos rest live_ids =>
      refine ⟨[.ListFails], { s with phase := .Backoff }, by simp, ?_, rfl, hgranted, rfl⟩
      rw [exec_cons, step, hphase]
      simp only [hgranted, if_true, Option.bind_some, exec_nil]
    | Listed pos =>
      refine ⟨[.WatchFails], { s with phase := .Backoff }, by simp, ?_, rfl, hgranted, rfl⟩
      rw [exec_cons, step, hphase]
      rfl
    | Watching pos =>
      refine ⟨[.StreamEnds], { s with phase := .Backoff }, by simp, ?_, rfl, hgranted, rfl⟩
      rw [exec_cons, step, hphase]
      rfl
    | Returned pos => exact absurd hphase (hruns pos)
  obtain ⟨as, u, has, hu, hlog, hgranted, hphase⟩ := hfail
  obtain ⟨bs, t, hbs, ht, hlog', hwatching⟩ := relists hgranted hphase
  refine ⟨as ++ bs, t, ?_, ?_, hlog'.trans hlog, hlog ▸ hwatching⟩
  · intro c hc
    rcases List.mem_append.mp hc with hc | hc
    · exact has c hc
    · exact hbs c hc
  · rw [exec_append, hu]
    exact ht

/-! ## What the frontends show -/

omit [serde_json.FloatText] in
theorem mem_filter_rows (rows : List Row) (filter : Option Filter) (row : Row) :
    row ∈ filter_rows rows filter ↔ row ∈ rows ∧ filter_rows [row] filter = [row] := by
  unfold filter_rows
  cases needle_of filter with
  | none => simp
  | some needle => simp

variable (std : StableSort)

omit [serde_json.FloatText] in
/-- What a frontend shows that reads all pages of a query: each row that the filter keeps,
once, and in order where the cells of the column have an order. -/
theorem pages_show (p : MemPlane) (query : Query) (cuts : List Nat)
    (hcuts : (0 :: cuts).Pairwise (· ≤ ·)) (hlast : cuts.getLastD 0 = (p.page std query).total) :
    ((p.pages std query 0 cuts).map Row.id).Nodup ∧
    (∀ row, row ∈ p.pages std query 0 cuts ↔
      row ∈ p.rows ∧ filter_rows [row] query.filter = [row]) ∧
    ∀ cmp, comparator p.column_ids query.sort = some cmp →
      NoneBetween (column_cells p.rows p.column_ids query.sort) →
      (p.pages std query 0 cuts).Pairwise fun a b => (cmp a b).isLE := by
  have hpages : p.pages std query 0 cuts = p.matching_rows std query := by
    rw [pages_eq_slice std p query 0 cuts hcuts, hlast, page_total]
    exact windows.slice_all _ (Nat.le_refl _)
  have hsort : (sort_rows std p.state.rows p.column_ids query.sort).Perm p.state.rows := by
    unfold sort_rows
    cases comparator p.column_ids query.sort with
    | none => exact List.Perm.refl _
    | some cmp => exact std.perm _ _
  have hperm : (p.matching_rows std query).Perm (filter_rows p.rows query.filter) :=
    filter_rows_perm hsort query.filter
  rw [hpages]
  refine ⟨?_, ?_, ?_⟩
  · refine ((hperm.map Row.id).nodup_iff).mpr ?_
    exact (nodup_ids p.state).sublist ((filter_rows_sublist _ _).map _)
  · intro row
    rw [hperm.mem_iff]
    exact mem_filter_rows p.rows query.filter row
  · intro cmp hcmp hcells
    have hsorted := sort_rows_sorted std ((totalPreorderOn_cells_iff _).mpr hcells) hcmp
    exact hsorted.sublist (filter_rows_sublist _ _)

/-- The watch loop in any run beside the server: lists of any page sizes, watches that are
refused, that are interrupted or that report errors, with changes of the server in between.
No row is made up: each was there at the start or is the row of an object that the server had.
Whenever the loop watches, the pages of any query show the objects of one position of the log
that the filter keeps, each once, in order where the cells of the column have an order; and
the positions never go back. A loop that has its watch always can come to the end of the log. -/
theorem a_watching_plane_shows_the_cluster (p : LivePlane) (granted : Bool) (log : List Change)
    (as : List Action) {s : System} (hs : exec step (start p granted log) as = some s)
    (hid : ∀ c ∈ s.log, Identified (object_of c)) :
    (∀ row ∈ s.plane.mem.rows, Known p s.log row) ∧
    (∀ pos, s.phase = .Watching pos →
      pos ≤ s.log.length ∧
      (∀ query cuts, (0 :: cuts).Pairwise (· ≤ ·) →
        cuts.getLastD 0 = (s.plane.mem.page std query).total →
        let shown := s.plane.mem.pages std query 0 cuts
        (shown.map Row.id).Nodup ∧
        (∀ row, row ∈ shown ↔ (∃ uid obj, existing (s.log.take pos) uid = some obj ∧
          row = p.map_object obj) ∧ filter_rows [row] query.filter = [row]) ∧
        ∀ cmp, comparator s.plane.mem.column_ids query.sort = some cmp →
          NoneBetween (column_cells s.plane.mem.rows s.plane.mem.column_ids query.sort) →
          shown.Pairwise fun a b => (cmp a b).isLE) ∧
      ∀ later t, exec step s later = some t → ∀ pos', t.phase = .Watching pos' → pos ≤ pos') ∧
    (s.granted = true → ∃ later t, (∀ c, .Change c ∉ later) ∧ exec step s later = some t ∧
      t.log = s.log ∧ t.phase = .Watching s.log.length) := by
  have hinv := inv_run (inv_start p granted log) hs hid
  refine ⟨?_, ?_, ?_⟩
  · intro row hrow
    exact hinv.known row.id row ((State.mem_rows _ row).mp hrow)
  · intro pos hphase
    have hshows := hinv.in_phase
    rw [hphase] at hshows
    refine ⟨hshows.1, ?_, ?_⟩
    · intro query cuts hcuts hlast shown
      obtain ⟨hnodup, hmem, hsorted⟩ := pages_show std s.plane.mem query cuts hcuts hlast
      refine ⟨hnodup, ?_, hsorted⟩
      intro row
      rw [hmem, ← hinv.renders]
      refine and_congr_left fun _ => ?_
      rw [MemPlane.rows, State.mem_rows]
      have hrow : s.plane.mem.state.row_map row.id =
          (existing (s.log.take pos) row.id).map s.plane.map_object := congrFun hshows.2 row.id
      rw [hrow, Option.map_eq_some_iff]
      constructor
      · rintro ⟨obj, hobj, hrow⟩
        exact ⟨row.id, obj, hobj, hrow.symm⟩
      · rintro ⟨uid, obj, hobj, rfl⟩
        obtain ⟨huid, c, hc, rfl⟩ := existing_eq_some hobj
        refine ⟨_, ?_, rfl⟩
        rw [map_object_id s.plane _ (hid c (List.mem_of_mem_take hc)), huid]
        exact hobj
    · intro later t ht pos' hphase'
      have hat : AtLeast pos s := by
        rw [AtLeast, hphase]
        exact ⟨Nat.le_refl _, hshows.1⟩
      have hlater := atLeast_run hat ht
      rw [AtLeast, hphase'] at hlater
      exact hlater.1
  · intro hgranted
    exact catches_up hgranted (hinv.runs_on hgranted)

/-- Two pages of one pod each, and the first pod is deleted beside the watch. -/
def two_pages : List Action :=
  [.List ["2", "1"], .Page 1 true, .Page 1 false, .WatchOpens, .Change (.Deleted (bare_pod "1")),
    .InBandError, .Deliver]

/-- A plane with a row that no object has. -/
def stale_plane : LivePlane where
  mem := (MemPlane.new []).run [.upsert { id := "gone", cells := [] }]
  gvk := ⟨"", "v1", "Pod"⟩
  namespace_ := none
  lens := none

omit [serde_json.FloatText] in
theorem two_pages_run : ∃ s, exec (@step no_doubles) (start stale_plane true
    [.Added (bare_pod "1"), .Added (bare_pod "2")]) two_pages = some s ∧
      s.log = [.Added (bare_pod "1"), .Added (bare_pod "2"), .Deleted (bare_pod "1")] ∧
      s.phase = .Watching 3 :=
  ⟨_, rfl, rfl, rfl⟩

omit [serde_json.FloatText] in
/-- The frontend reads one page, which has room for all rows. -/
theorem a_deleted_pod_is_not_shown :
    ∃ s, exec (@step no_doubles) (start stale_plane true
        [.Added (bare_pod "1"), .Added (bare_pod "2")]) two_pages = some s ∧
      ∀ row, row ∈ s.plane.mem.pages mergeSort ⟨0, 0, none, none⟩ 0
          [(s.plane.mem.page mergeSort ⟨0, 0, none, none⟩).total] ↔
        (∃ uid obj, existing (s.log.take 3) uid = some obj ∧
          row = @LivePlane.map_object no_doubles stale_plane obj) ∧
        filter_rows [row] none = [row] := by
  obtain ⟨s, hs, hlog, hphase⟩ := two_pages_run
  refine ⟨s, hs, ?_⟩
  have h := @a_watching_plane_shows_the_cluster no_doubles mergeSort stale_plane true _ two_pages
    s hs (by
      intro c hc
      rw [hlog] at hc
      simp only [List.mem_cons, List.not_mem_nil, or_false] at hc
      rcases hc with rfl | rfl | rfl
      · exact bare_pod_identified "1"
      · exact bare_pod_identified "2"
      · exact bare_pod_identified "1")
  exact ((h.2.1 3 hphase).2.1 ⟨0, 0, none, none⟩ _ (by simp) rfl).2.1

end kaptein_integration.live_view
