-- The live data plane: a paged list is reconciled into the rows, and then
-- each watch event is applied. The rows stand for the objects of the cluster,
-- each under its uid.
import Kaptein.Informer
import Kaptein.MapObject
import Kaptein.MemPlane

open serde_json kube patches kaptein_core.informer kaptein_viewmodel kaptein_viewmodel.lens
  kaptein_viewmodel.mem_plane

namespace kaptein_integration

structure LivePlane where
  mem : MemPlane
  gvk : GroupVersionKind
  namespace_ : Option String
  lens : Option ViewDefinition

/-- The key under which the plane asks for a watch. -/
def LivePlane.watch_key (p : LivePlane) : WatchKey where
  group := p.gvk.group
  version := p.gvk.version
  kind := p.gvk.kind
  namespace_ := p.namespace_.getD ""

/-- The answers to the list requests, one page after another. A page with a
continue token asks for the next one, and any request may fail. -/
inductive Listing where
  | Failed
  | Last (items : List DynamicObject) (resource_version : Option String)
  | More (items : List DynamicObject) (resource_version : Option String) (next : Listing)

/-- The objects of the pages that came. -/
def Listing.objects : Listing → List DynamicObject
  | .Failed => []
  | .Last items _ => items
  | .More items _ next => items ++ next.objects

/-- Every request of the list is answered with a page. -/
def Listing.Complete : Listing → Prop
  | .Failed => False
  | .Last _ _ => True
  | .More _ _ next => next.Complete

section
variable [FloatText]

def LivePlane.map_object (p : LivePlane) (obj : DynamicObject) : Row :=
  map_object_with p.lens obj p.gvk

def LivePlane.map_watch_event (p : LivePlane) : WatchEvent → Option RowPatch
  | .Added obj | .Modified obj =>
    let row := p.map_object obj
    some (.Upsert row.id row)
  | .Deleted obj => some (.Remove (obj.metadata.uid.getD obj.name_any))
  | .Bookmark | .Error => none

/-- One event of a stream, as the watch loop applies it. -/
def LivePlane.apply_event (p : LivePlane) (event : WatchEvent) : LivePlane :=
  match p.map_watch_event event with
  | some (.Upsert _ row) => { p with mem := (p.mem.upsert row).1 }
  | some (.Remove id) => { p with mem := (p.mem.remove id).1 }
  | none => p

def LivePlane.watch (p : LivePlane) (events : List WatchEvent) : LivePlane :=
  events.foldl LivePlane.apply_event p

/-! ## The relist -/

/-- The objects of one page: each row goes into the plane, and its id into the
set of live ids. -/
def LivePlane.relist_items (p : LivePlane) (live_ids : List RowId) :
    List DynamicObject → LivePlane × List RowId
  | [] => (p, live_ids)
  | obj :: items =>
    let row := p.map_object obj
    LivePlane.relist_items { p with mem := (p.mem.upsert row).1 } (row.id :: live_ids) items

/-- The pages, until the last one or a failed request. -/
def LivePlane.relist (p : LivePlane) (live_ids : List RowId) (rv : Option String) :
    Listing → LivePlane × Option (List RowId × Option String)
  | .Failed => (p, none)
  | .Last items resource_version =>
    let (p, live_ids) := p.relist_items live_ids items
    (p, some (live_ids, resource_version.or rv))
  | .More items resource_version next =>
    let (p, live_ids) := p.relist_items live_ids items
    p.relist live_ids (resource_version.or rv) next

/-- The rows of a snapshot that are not live are removed. -/
def LivePlane.drop_absent (p : LivePlane) (live_ids : List RowId) : List Row → LivePlane
  | [] => p
  | row :: current =>
    if row.id ∈ live_ids then p.drop_absent live_ids current
    else LivePlane.drop_absent { p with mem := (p.mem.remove row.id).1 } live_ids current

/-- The resource version to watch from, or `none` for an error. -/
def LivePlane.relist_and_reconcile (p : LivePlane) (listing : Listing) :
    LivePlane × Option String :=
  match p.relist [] none listing with
  | (p, some (live_ids, rv)) => (p.drop_absent live_ids p.mem.rows, some (rv.getD "0"))
  | (p, none) => (p, none)

def LivePlane.row_map (p : LivePlane) : RowId → Option Row := p.mem.row_map

/-! ## What each part does to the rows -/

/-- The patch of an object that the relist finds. -/
def LivePlane.set_patch (p : LivePlane) (obj : DynamicObject) : Patch RowId Row :=
  .Set (p.map_object obj).id (p.map_object obj)

theorem relist_items_spec (p : LivePlane) (live_ids : List RowId) (items : List DynamicObject) :
    (p.relist_items live_ids items).1.row_map =
        applyAll p.row_map (items.map p.set_patch) ∧
      (∀ id, id ∈ (p.relist_items live_ids items).2 ↔
        id ∈ live_ids ∨ id ∈ touched (items.map p.set_patch)) ∧
      (p.relist_items live_ids items).1.gvk = p.gvk ∧
      (p.relist_items live_ids items).1.lens = p.lens := by
  induction items generalizing p live_ids with
  | nil => exact ⟨rfl, by simp [LivePlane.relist_items, touched], rfl, rfl⟩
  | cons obj items ih =>
    obtain ⟨hmap, hids, hgvk, hlens⟩ :=
      ih { p with mem := (p.mem.upsert (p.map_object obj)).1 } ((p.map_object obj).id :: live_ids)
    refine ⟨?_, ?_, hgvk, hlens⟩
    · rw [LivePlane.relist_items, hmap, List.map_cons, applyAll_cons]
      congr 1
      exact MemPlane.upsert_row_map p.mem (p.map_object obj)
    · intro id
      rw [LivePlane.relist_items, hids, List.map_cons]
      simp only [touched, List.map_cons, List.mem_cons, LivePlane.set_patch, Patch.key]
      constructor
      · rintro ((h | h) | h)
        · exact Or.inr (Or.inl h)
        · exact Or.inl h
        · exact Or.inr (Or.inr h)
      · rintro (h | h | h)
        · exact Or.inl (Or.inr h)
        · exact Or.inl (Or.inl h)
        · exact Or.inr h

/-- A listing gives its live ids exactly when every request is answered, and
upserts the rows of the objects that came in any case. -/
theorem relist_spec (p : LivePlane) (live_ids : List RowId) (rv : Option String)
    (listing : Listing) :
    (p.relist live_ids rv listing).1.row_map =
        applyAll p.row_map (listing.objects.map p.set_patch) ∧
      (p.relist live_ids rv listing).1.gvk = p.gvk ∧
      (p.relist live_ids rv listing).1.lens = p.lens ∧
      (listing.Complete → ∃ ids version,
        (p.relist live_ids rv listing).2 = some (ids, version) ∧
          ∀ id, id ∈ ids ↔ id ∈ live_ids ∨ id ∈ touched (listing.objects.map p.set_patch)) ∧
      (¬ listing.Complete → (p.relist live_ids rv listing).2 = none) := by
  induction listing generalizing p live_ids rv with
  | Failed => exact ⟨rfl, rfl, rfl, fun h => h.elim, fun _ => rfl⟩
  | Last items version =>
    obtain ⟨hmap, hids, hgvk, hlens⟩ := relist_items_spec p live_ids items
    refine ⟨hmap, hgvk, hlens, ?_, fun h => absurd trivial h⟩
    intro _
    exact ⟨_, _, rfl, hids⟩
  | More items version next ih =>
    obtain ⟨hmap, hids, hgvk, hlens⟩ := relist_items_spec p live_ids items
    obtain ⟨hmap', hgvk', hlens', hok, hfail⟩ :=
      ih (p.relist_items live_ids items).1 (p.relist_items live_ids items).2 (version.or rv)
    have hset : (p.relist_items live_ids items).1.set_patch = p.set_patch := by
      funext obj
      simp only [LivePlane.set_patch, LivePlane.map_object, hgvk, hlens]
    rw [hset, hmap] at hmap'
    rw [hset] at hok
    refine ⟨?_, hgvk'.trans hgvk, hlens'.trans hlens, ?_, hfail⟩
    · rw [Listing.objects, List.map_append, applyAll_append]
      exact hmap'
    · intro hc
      obtain ⟨ids, version', hsome, hmem⟩ := hok hc
      refine ⟨ids, version', hsome, ?_⟩
      intro id
      rw [hmem, hids, Listing.objects, List.map_append, touched, touched, touched,
        List.map_append, List.mem_append, or_assoc]

omit [FloatText] in
theorem drop_absent_spec (p : LivePlane) (live_ids : List RowId) (current : List Row)
    (id : RowId) :
    (p.drop_absent live_ids current).row_map id =
        (if id ∉ live_ids ∧ ∃ row ∈ current, row.id = id then none else p.row_map id) ∧
      (p.drop_absent live_ids current).gvk = p.gvk ∧
      (p.drop_absent live_ids current).lens = p.lens := by
  induction current generalizing p with
  | nil => exact ⟨by simp [LivePlane.drop_absent], rfl, rfl⟩
  | cons row current ih =>
    unfold LivePlane.drop_absent
    by_cases hlive : row.id ∈ live_ids
    · rw [if_pos hlive]
      obtain ⟨hmap, hrest⟩ := ih p
      refine ⟨?_, hrest⟩
      rw [hmap]
      by_cases hid : id ∈ live_ids
      · simp [hid]
      · have hne : row.id ≠ id := by
          rintro rfl
          exact hid hlive
        simp [hid, hne]
    · rw [if_neg hlive]
      obtain ⟨hmap, hrest⟩ := ih { p with mem := (p.mem.remove row.id).1 }
      refine ⟨?_, hrest⟩
      have hremove : LivePlane.row_map { p with mem := (p.mem.remove row.id).1 } =
          Function.update p.row_map row.id none := MemPlane.remove_row_map p.mem row.id
      rw [hmap, hremove]
      by_cases hne : id = row.id
      · subst hne
        simp [hlive]
      · simp [Function.update_of_ne hne, Ne.symm hne]

omit [FloatText] in
/-- Of a plane that was patched with the listed objects, the rows of those objects are left. -/
theorem drop_absent_of_touched (p : LivePlane) (live_ids : List RowId) (m : RowId → Option Row)
    (patches : List (Patch RowId Row)) (hmap : p.row_map = applyAll m patches)
    (hids : ∀ id, id ∈ live_ids ↔ id ∈ touched patches) :
    (p.drop_absent live_ids p.mem.rows).row_map = applyAll (fun _ => none) patches := by
  funext id
  rw [(drop_absent_spec p live_ids p.mem.rows id).1]
  by_cases hid : id ∈ touched patches
  · have hlive : id ∈ live_ids := (hids id).mpr hid
    rw [if_neg (by simp [hlive]), hmap, applyAll_touched _ _ _ _ hid]
  · have hdead : id ∉ live_ids := by
      rw [hids]
      exact hid
    rw [applyAll_untouched _ _ _ hid]
    split
    · rfl
    · rename_i hno
      cases hrow : p.row_map id with
      | none => rfl
      | some row =>
        exfalso
        have hrid := State.row_map_id _ id row hrow
        refine hno ⟨hdead, row, ?_, hrid⟩
        rw [← hrid] at hrow
        exact (State.mem_rows _ row).mpr hrow

/-- The rows after a complete relist are those of the listed objects alone. -/
theorem relist_and_reconcile_complete (p : LivePlane) (listing : Listing)
    (hc : listing.Complete) :
    (p.relist_and_reconcile listing).1.row_map =
        applyAll (fun _ => none) (listing.objects.map p.set_patch) ∧
      (p.relist_and_reconcile listing).2.isSome ∧
      (p.relist_and_reconcile listing).1.gvk = p.gvk ∧
      (p.relist_and_reconcile listing).1.lens = p.lens := by
  obtain ⟨hmap, hgvk, hlens, hok, _⟩ := relist_spec p [] none listing
  obtain ⟨ids, version, hsome, hids⟩ := hok hc
  have hrun : p.relist_and_reconcile listing =
      ((p.relist [] none listing).1.drop_absent ids (p.relist [] none listing).1.mem.rows,
        some (version.getD "0")) := by
    unfold LivePlane.relist_and_reconcile
    split
    · rename_i q live rv heq
      rw [heq] at hsome
      cases hsome
      rw [heq]
    · rename_i q heq
      rw [heq] at hsome
      cases hsome
  have hdrop := drop_absent_spec (p.relist [] none listing).1 ids
    (p.relist [] none listing).1.mem.rows
  rw [hrun]
  refine ⟨?_, rfl, (hdrop "").2.1.trans hgvk, (hdrop "").2.2.trans hlens⟩
  refine drop_absent_of_touched _ ids p.row_map _ hmap fun id => ?_
  rw [hids]
  simp

/-- A failed relist removes no row. -/
theorem relist_and_reconcile_failed (p : LivePlane) (listing : Listing)
    (hf : ¬ listing.Complete) :
    (p.relist_and_reconcile listing).2 = none ∧
      ∀ id, p.row_map id ≠ none → (p.relist_and_reconcile listing).1.row_map id ≠ none := by
  obtain ⟨hmap, _, _, _, hfail⟩ := relist_spec p [] none listing
  have hnone := hfail hf
  have hrun : p.relist_and_reconcile listing = ((p.relist [] none listing).1, none) := by
    unfold LivePlane.relist_and_reconcile
    split
    · rename_i q live rv heq
      rw [heq] at hnone
      cases hnone
    · rename_i q heq
      rw [heq]
  rw [hrun]
  refine ⟨rfl, ?_⟩
  intro id hid
  rw [hmap]
  refine applyAll_keeps _ _ ?_ id hid
  intro patch hpatch
  obtain ⟨obj, _, rfl⟩ := List.mem_map.mp hpatch
  exact Option.some_ne_none _

/-! ## The objects of the cluster -/

/-- An object that the decoder read and that carries the uid it is known by. -/
structure Identified (obj : DynamicObject) : Prop where
  decoded : obj.Decoded
  uid : obj.metadata.uid.isSome

def uid_of (obj : DynamicObject) : String := obj.metadata.uid.getD obj.name_any

/-- What an event does to the objects of the cluster. -/
def object_patch : WatchEvent → Option (Patch String DynamicObject)
  | .Added obj | .Modified obj => some (.Set (uid_of obj) obj)
  | .Deleted obj => some (.Erase (uid_of obj))
  | .Bookmark | .Error => none

/-- The objects, each under its uid, after a list and the events that follow it. -/
def cluster_after (listed : List DynamicObject) (events : List WatchEvent) :
    String → Option DynamicObject :=
  applyAll (applyAll (fun _ => none) (listed.map fun obj => .Set (uid_of obj) obj))
    (events.filterMap object_patch)

omit [FloatText] in
theorem Identified.uid_eq {obj : DynamicObject} (h : Identified obj) :
    obj.metadata.uid = some (uid_of obj) := by
  obtain ⟨u, hu⟩ := Option.isSome_iff_exists.mp h.uid
  simp [uid_of, hu]

theorem map_object_id (p : LivePlane) (obj : DynamicObject) (h : Identified obj) :
    (p.map_object obj).id = uid_of obj :=
  map_object_with_id p.lens obj p.gvk (uid_of obj) h.decoded h.uid_eq

theorem set_patch_eq (p : LivePlane) (obj : DynamicObject) (h : Identified obj) :
    p.set_patch obj = Patch.map p.map_object (.Set (uid_of obj) obj) := by
  simp only [LivePlane.set_patch, Patch.map, map_object_id p obj h]

/-- An event does to the rows what it does to the objects. -/
theorem apply_event_spec (p : LivePlane) (event : WatchEvent)
    (h : ∀ obj, event.object = some obj → Identified obj) :
    (p.apply_event event).row_map =
        applyAll p.row_map ((object_patch event).toList.map (Patch.map p.map_object)) ∧
      (p.apply_event event).gvk = p.gvk ∧ (p.apply_event event).lens = p.lens := by
  cases event with
  | Added obj | Modified obj =>
    refine ⟨?_, rfl, rfl⟩
    have hid := map_object_id p obj (h obj rfl)
    have hrow := MemPlane.upsert_row_map p.mem (p.map_object obj)
    rw [hid] at hrow
    exact hrow
  | Deleted obj => exact ⟨MemPlane.remove_row_map p.mem _, rfl, rfl⟩
  | Bookmark | Error => exact ⟨rfl, rfl, rfl⟩

theorem watch_spec (p : LivePlane) (events : List WatchEvent)
    (h : ∀ event ∈ events, ∀ obj, event.object = some obj → Identified obj) :
    (p.watch events).row_map =
      applyAll p.row_map ((events.filterMap object_patch).map (Patch.map p.map_object)) := by
  induction events generalizing p with
  | nil => rfl
  | cons event events ih =>
    obtain ⟨hmap, hgvk, hlens⟩ := apply_event_spec p event (h event List.mem_cons_self)
    have hobj : (p.apply_event event).map_object = p.map_object := by
      funext obj
      simp only [LivePlane.map_object, hgvk, hlens]
    have hrest := ih (p.apply_event event) fun e he => h e (List.mem_cons_of_mem _ he)
    rw [hobj, hmap] at hrest
    rw [LivePlane.watch, List.foldl_cons]
    refine hrest.trans ?_
    rw [← applyAll_append, ← List.map_append]
    congr 2
    cases hp : object_patch event with
    | none => rw [List.filterMap_cons_none hp, Option.toList_none, List.nil_append]
    | some patch => rw [List.filterMap_cons_some hp]; rfl

/-- A complete relist makes the rows those of the listed objects, and the events
after it change them as they change the objects. A failed relist removes no row. -/
theorem relist_and_watch_mirror_the_cluster (p : LivePlane) (listing : Listing)
    (events : List WatchEvent) (hlist : ∀ obj ∈ listing.objects, Identified obj)
    (hdistinct : (listing.objects.map uid_of).Nodup)
    (hevents : ∀ event ∈ events, ∀ obj, event.object = some obj → Identified obj) :
    (listing.Complete →
      (p.relist_and_reconcile listing).2.isSome ∧
      (∀ id row, (p.relist_and_reconcile listing).1.row_map id = some row ↔
        ∃ obj ∈ listing.objects, p.map_object obj = row ∧ (p.map_object obj).id = id) ∧
      ((p.relist_and_reconcile listing).1.watch events).row_map =
        fun id => (cluster_after listing.objects events id).map p.map_object) ∧
    (¬ listing.Complete →
      (p.relist_and_reconcile listing).2 = none ∧
      ∀ id, p.row_map id ≠ none → (p.relist_and_reconcile listing).1.row_map id ≠ none) := by
  refine ⟨?_, relist_and_reconcile_failed p listing⟩
  intro hc
  obtain ⟨hmap, hsome, hgvk, hlens⟩ := relist_and_reconcile_complete p listing hc
  have hpatches : listing.objects.map p.set_patch =
      (listing.objects.map fun obj => .Set (uid_of obj) obj).map (Patch.map p.map_object) := by
    rw [List.map_map]
    exact List.map_congr_left fun obj hobj => set_patch_eq p obj (hlist obj hobj)
  refine ⟨hsome, ?_, ?_⟩
  · intro id row
    have hpairs : listing.objects.map p.set_patch =
        (listing.objects.map fun obj => ((p.map_object obj).id, p.map_object obj)).map
          fun q => .Set q.1 q.2 := by
      rw [List.map_map]
      rfl
    have hids : ((listing.objects.map fun obj =>
        ((p.map_object obj).id, p.map_object obj)).map Prod.fst).Nodup := by
      rw [List.map_map]
      have heq : listing.objects.map (fun obj => (p.map_object obj).id) =
          listing.objects.map uid_of :=
        List.map_congr_left fun obj hobj => map_object_id p obj (hlist obj hobj)
      exact heq ▸ hdistinct
    rw [hmap, hpairs, applyAll_sets_eq_some _ hids, List.mem_map]
    simp only [Prod.mk.injEq]
    constructor
    · rintro ⟨obj, hobj, hid, hrow⟩
      exact ⟨obj, hobj, hrow, hid⟩
    · rintro ⟨obj, hobj, hrow, hid⟩
      exact ⟨obj, hobj, hid, hrow⟩
  · have hobj : (p.relist_and_reconcile listing).1.map_object = p.map_object := by
      funext obj
      simp only [LivePlane.map_object, hgvk, hlens]
    have hnone : (fun _ => none : RowId → Option Row) =
        fun id => ((fun _ => none : String → Option DynamicObject) id).map p.map_object := rfl
    rw [watch_spec _ events hevents, hobj, hmap, hpatches, hnone, applyAll_map, applyAll_map]
    rfl

end

/-- A pod with nothing but its names. -/
def bare_pod (uid : String) : DynamicObject :=
  { types := none, metadata := { name := some uid, uid := some uid }, data := .object [] }

theorem bare_pod_identified (uid : String) : Identified (bare_pod uid) :=
  ⟨⟨[], rfl, List.not_mem_nil⟩, rfl⟩

/-- Two pages, a stale row, and then a deletion and an addition. -/
theorem two_pages_and_two_events_are_mirrored :
    let p : LivePlane :=
      { mem := (MemPlane.new []).run [.upsert { id := "gone", cells := [] }]
        gvk := ⟨"", "v1", "Pod"⟩
        namespace_ := none
        lens := none }
    let listing : Listing := .More [bare_pod "1"] none (.Last [bare_pod "2"] (some "7"))
    let events : List WatchEvent := [.Deleted (bare_pod "1"), .Bookmark, .Added (bare_pod "3")]
    (@LivePlane.watch no_doubles (@LivePlane.relist_and_reconcile no_doubles p listing).1
      events).row_map = fun id => (cluster_after [bare_pod "1", bare_pod "2"] events id).map
        (@LivePlane.map_object no_doubles p) := by
  intro p listing events
  have h := @relist_and_watch_mirror_the_cluster no_doubles p listing events
    (by
      intro obj hobj
      simp only [listing, Listing.objects, List.mem_append, List.mem_singleton] at hobj
      rcases hobj with rfl | rfl
      · exact bare_pod_identified "1"
      · exact bare_pod_identified "2")
    (by decide)
    (by
      intro event hevent obj hobj
      simp only [events, List.mem_cons, List.not_mem_nil, or_false] at hevent
      rcases hevent with rfl | rfl | rfl
      · cases hobj
        exact bare_pod_identified "1"
      · cases hobj
      · cases hobj
        exact bare_pod_identified "3")
  exact (h.1 trivial).2.2

end kaptein_integration
