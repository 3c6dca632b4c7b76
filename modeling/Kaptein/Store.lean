-- The informer store (`store.rs`): seeded from a paged list, then kept by a
-- watch that reconnects. The API server is a log of changes; a watch delivers
-- the changes after a position of the log.
import Kaptein.Lib.Patches
import Kaptein.Lib.Runs
import Kaptein.MapObject

open kube patches runs kaptein_core.discovery

namespace kaptein_core.store

abbrev RowKey := String

structure InformerStore where
  items : RowKey → Option ResourceSummary
  revision : Nat

def InformerStore.new : InformerStore where
  items := fun _ => none
  revision := 0

/-- The key of a name in a namespace, or of a name alone. -/
def key_of (namespace_ name : String) : RowKey :=
  if namespace_ = "" then name else namespace_ ++ "/" ++ name

def row_key (obj : DynamicObject) : RowKey := key_of (obj.metadata.namespace_.getD "") obj.name_any

def InformerStore.insert (s : InformerStore) (key : RowKey) (summary : ResourceSummary) :
    InformerStore :=
  { s with items := Function.update s.items key (some summary) }

def InformerStore.apply (s : InformerStore) (event : WatchEvent) (gvk : GroupVersionKind) :
    InformerStore :=
  match event with
  | .Added obj | .Modified obj =>
    { items := Function.update s.items (row_key obj) (some (summary_of obj gvk))
      revision := s.revision + 1 }
  | .Deleted obj =>
    { items := Function.update s.items (row_key obj) none, revision := s.revision + 1 }
  | .Bookmark | .Error => s

/-! ## The seed -/

/-- The summary of an object of a metadata list. It has no status. -/
def summary_of_meta (obj : DynamicObject) (gvk : GroupVersionKind) : ResourceSummary where
  name := obj.name_any
  namespace_ := obj.metadata.namespace_.getD ""
  kind := gvk.kind
  uid := obj.metadata.uid
  created := obj.metadata.creation_timestamp
  status := ""

def InformerStore.seed_summaries (s : InformerStore) (summaries : List ResourceSummary) :
    InformerStore :=
  { items := (summaries.foldl (fun t sum => t.insert (key_of sum.namespace_ sum.name) sum) s).items
    revision := s.revision + 1 }

/-- The seed of `run_informer`, one page after another. -/
def InformerStore.seed_pages (s : InformerStore) (gvk : GroupVersionKind)
    (pages : List (List DynamicObject)) : InformerStore :=
  pages.foldl (fun t page => t.seed_summaries (page.map fun obj => summary_of_meta obj gvk)) s

def InformerStore.has (s : InformerStore) (key : RowKey) : Prop := (s.items key).isSome

instance (s : InformerStore) (key : RowKey) : Decidable (s.has key) :=
  inferInstanceAs (Decidable ((s.items key).isSome = true))

theorem has_insert (s : InformerStore) (key k : RowKey) (summary : ResourceSummary) :
    (s.insert key summary).has k ↔ k = key ∨ s.has k := by
  unfold InformerStore.has InformerStore.insert
  by_cases hk : k = key
  · subst hk
    simp
  · simp [hk]

theorem has_inserts (s : InformerStore) (summaries : List ResourceSummary) (k : RowKey) :
    (summaries.foldl (fun t sum => t.insert (key_of sum.namespace_ sum.name) sum) s).has k ↔
      s.has k ∨ ∃ sum ∈ summaries, key_of sum.namespace_ sum.name = k := by
  induction summaries generalizing s with
  | nil => simp
  | cons sum summaries ih =>
    rw [List.foldl_cons, ih, has_insert]
    simp only [List.mem_cons, exists_eq_or_imp]
    constructor
    · rintro ((rfl | h) | h)
      · exact Or.inr (Or.inl rfl)
      · exact Or.inl h
      · exact Or.inr (Or.inr h)
    · rintro (h | h | h)
      · exact Or.inl (Or.inr h)
      · exact Or.inl (Or.inl h.symm)
      · exact Or.inr h

/-- A seeded store has the keys it had and those of the listed objects. -/
theorem has_seed_pages (s : InformerStore) (gvk : GroupVersionKind)
    (pages : List (List DynamicObject)) (k : RowKey) :
    (s.seed_pages gvk pages).has k ↔ s.has k ∨ ∃ page ∈ pages, ∃ obj ∈ page, row_key obj = k := by
  unfold InformerStore.seed_pages
  induction pages generalizing s with
  | nil => simp
  | cons page pages ih =>
    have hpage : (s.seed_summaries (page.map fun obj => summary_of_meta obj gvk)).has k ↔
        s.has k ∨ ∃ obj ∈ page, row_key obj = k := by
      refine (has_inserts s _ k).trans ?_
      simp only [List.mem_map, exists_exists_and_eq_and]
      rfl
    rw [List.foldl_cons, ih, hpage]
    simp only [List.mem_cons, exists_eq_or_imp, or_assoc]

/-! ## The server and the watch

A position of the log is a resource version. -/

/-- A change of one object. -/
inductive Change where
  | Added (obj : DynamicObject)
  | Modified (obj : DynamicObject)
  | Deleted (obj : DynamicObject)

def Change.event : Change → WatchEvent
  | .Added obj => .Added obj
  | .Modified obj => .Modified obj
  | .Deleted obj => .Deleted obj

def Change.patch : Change → Patch RowKey DynamicObject
  | .Added obj | .Modified obj => .Set (row_key obj) obj
  | .Deleted obj => .Erase (row_key obj)

/-- The objects that exist after a log of changes, under their keys. A name has
no slash, so the key tells the namespace and the name. -/
def existing (log : List Change) : RowKey → Option DynamicObject :=
  applyAll (fun _ => none) (log.map Change.patch)

/-- The loop of `watch_from` between two awaits: the resource version it would
watch from, and the position of the watch it holds. -/
structure System where
  log : List Change
  informer : InformerStore
  current_rv : Nat
  watch : Option Nat

inductive Action where
  | Change (c : Change)
  | WatchOk
  | WatchRefused (relisted : Bool)
  | Deliver
  | Bookmark
  | InBandError
  | Interrupt

/-- The state in which the unbounded watch starts: the pages of the seed went
into a new store, and the server is at the version of the list. -/
def seeded (gvk : GroupVersionKind) (log : List Change) (pages : List (List DynamicObject)) :
    System where
  log := log
  informer := InformerStore.new.seed_pages gvk pages
  current_rv := log.length
  watch := none

/-- The pages of the list hold the objects that exist. -/
def Lists (log : List Change) (pages : List (List DynamicObject)) : Prop :=
  ∀ k, (∃ page ∈ pages, ∃ obj ∈ page, row_key obj = k) ↔ (existing log k).isSome

def step (gvk : GroupVersionKind) (s : System) : Action → Option System
  | .Change c => some { s with log := s.log ++ [c] }
  | .WatchOk =>
    match s.watch with
    | none => some { s with watch := some s.current_rv }
    | some _ => none
  | .WatchRefused relisted =>
    -- the list of one object gives a version, and nothing of it goes into the store
    match s.watch with
    | none => some { s with current_rv := if relisted then s.log.length else s.current_rv }
    | some _ => none
  | .Deliver =>
    match s.watch with
    | some p =>
      match s.log[p]? with
      | some c => some { s with informer := s.informer.apply c.event gvk, watch := some (p + 1) }
      | none => none
    | none => none
  | .Bookmark => s.watch.map fun _ => { s with informer := s.informer.apply .Bookmark gvk }
  | .InBandError => s.watch.map fun _ => { s with informer := s.informer.apply .Error gvk }
  | .Interrupt => s.watch.map fun _ => { s with watch := none }

/-- The store has the keys of the objects that exist. -/
def Current (s : System) : Prop := ∀ k, s.informer.has k ↔ (existing s.log k).isSome

/-- A store that has consumed its watch is current. -/
def NotStale (s : System) : Prop := s.watch = some s.log.length → Current s

/-- The version is fetched again only when the store has missed no change. -/
def MissedNothing (s : System) : Action → Prop
  | .WatchRefused relisted => relisted = true → Current s
  | .Change _ | .WatchOk | .Deliver | .Bookmark | .InBandError | .Interrupt => True

/-- The store is right about every key that the log does not name from `n` on. -/
def RightUpTo (s : System) (n : Nat) : Prop :=
  ∀ k, k ∉ touched ((s.log.drop n).map Change.patch) →
    (s.informer.has k ↔ (existing s.log k).isSome)

structure Resumable (s : System) : Prop where
  rv : s.current_rv ≤ s.log.length
  resume : RightUpTo s s.current_rv
  watching : ∀ p, s.watch = some p → s.current_rv ≤ p ∧ p ≤ s.log.length ∧ RightUpTo s p

theorem existing_append (log : List Change) (c : Change) :
    existing (log ++ [c]) = apply (existing log) c.patch := by
  unfold existing
  rw [List.map_append, applyAll_append]
  rfl

theorem has_apply_key (s : InformerStore) (c : Change) (gvk : GroupVersionKind) :
    (s.apply c.event gvk).has c.patch.key ↔ c.patch.value.isSome := by
  cases c <;>
  simp [Change.event, Change.patch, Patch.key, Patch.value, InformerStore.apply,
    InformerStore.has]

theorem has_apply_ne (s : InformerStore) (c : Change) (gvk : GroupVersionKind) (k : RowKey)
    (hk : k ≠ c.patch.key) : (s.apply c.event gvk).has k ↔ s.has k := by
  cases c with
  | Added obj | Modified obj | Deleted obj =>
    have hne : k ≠ row_key obj := hk
    simp only [Change.event, InformerStore.apply, InformerStore.has, Function.update_of_ne hne]

/-- A later change of the server keeps what the store is right about. -/
theorem rightUpTo_change {s : System} {n : Nat} (h : RightUpTo s n) (hn : n ≤ s.log.length)
    (c : Change) : RightUpTo { s with log := s.log ++ [c] } n := by
  intro k hk
  simp only [List.drop_append_of_le_length hn, List.map_append, touched, List.mem_append,
    List.map_cons, List.map_nil, List.mem_singleton, not_or] at hk
  rw [existing_append, apply_ne _ _ _ hk.2]
  exact h k hk.1

theorem current_iff (s : System) : Current s ↔ RightUpTo s s.log.length := by
  unfold Current RightUpTo
  simp [touched]

/-- A delivered change makes the store right about its key. -/
theorem rightUpTo_deliver {gvk : GroupVersionKind} {s : System} {p : Nat} {c : Change}
    (hc : s.log[p]? = some c) (h : RightUpTo s p) (w : Option Nat) :
    RightUpTo { s with informer := s.informer.apply c.event gvk, watch := w } (p + 1) := by
  obtain ⟨hp, hget⟩ := List.getElem?_eq_some_iff.mp hc
  intro k hk
  simp only at hk ⊢
  by_cases hkey : k = c.patch.key
  · -- the log names the key for the last time, so its object is the one of this change
    subst hkey
    have hsplit : s.log = s.log.take p ++ [c] ++ s.log.drop (p + 1) := by
      rw [← hget, List.take_append_getElem hp, List.take_append_drop]
    have hval : existing s.log c.patch.key = c.patch.value := by
      rw [hsplit]
      unfold existing
      rw [List.map_append, applyAll_append, applyAll_untouched _ _ _ hk]
      change existing (s.log.take p ++ [c]) _ = _
      rw [existing_append, apply_key]
    rw [hval]
    exact has_apply_key s.informer c gvk
  · refine (has_apply_ne s.informer c gvk k hkey).trans (h k ?_)
    rw [List.drop_eq_getElem_cons hp, hget]
    simp only [List.map_cons, touched, List.mem_cons, not_or]
    exact ⟨hkey, hk⟩

/-- A key that the log names after `n` may be wrong, so a delivery after `n`
keeps the rest right. -/
theorem rightUpTo_redeliver {gvk : GroupVersionKind} {s : System} {n p : Nat} {c : Change}
    (hc : s.log[p]? = some c) (hn : n ≤ p) (h : RightUpTo s n) (w : Option Nat) :
    RightUpTo { s with informer := s.informer.apply c.event gvk, watch := w } n := by
  intro k hk
  simp only at hk ⊢
  have hkey : k ≠ c.patch.key := by
    rintro rfl
    apply hk
    have hmem : c ∈ s.log.drop n := by
      obtain ⟨hp, hget⟩ := List.getElem?_eq_some_iff.mp hc
      refine List.mem_of_getElem? (i := p - n) ?_
      rw [List.getElem?_drop, Nat.add_sub_cancel' hn]
      exact hc
    exact List.mem_map_of_mem (List.mem_map_of_mem hmem)
  exact (has_apply_ne s.informer c gvk k hkey).trans (h k hk)

theorem resumable_step {gvk : GroupVersionKind} {s t : System} {a : Action} (h : Resumable s)
    (hg : MissedNothing s a) (ht : step gvk s a = some t) : Resumable t := by
  cases a with
  | Change c =>
    cases ht
    refine ⟨?_, rightUpTo_change h.resume h.rv c, ?_⟩
    · rw [List.length_append]
      exact Nat.le_add_right_of_le h.rv
    · intro p hp
      obtain ⟨hlow, hhigh, hright⟩ := h.watching p hp
      refine ⟨hlow, ?_, rightUpTo_change hright hhigh c⟩
      rw [List.length_append]
      exact Nat.le_add_right_of_le hhigh
  | WatchOk =>
    simp only [step] at ht
    split at ht
    · cases ht
      refine ⟨h.rv, h.resume, ?_⟩
      intro p hp
      cases hp
      exact ⟨Nat.le_refl _, h.rv, h.resume⟩
    · cases ht
  | WatchRefused relisted =>
    simp only [step] at ht
    split at ht
    · rename_i hw
      cases ht
      have hnone : ∀ p, s.watch ≠ some p := by
        intro p hp
        rw [hw] at hp
        cases hp
      cases relisted with
      | false => exact ⟨h.rv, h.resume, fun p hp => absurd hp (hnone p)⟩
      | true => exact ⟨Nat.le_refl _, (current_iff s).mp (hg rfl), fun p hp => absurd hp (hnone p)⟩
    · cases ht
  | Deliver =>
    simp only [step] at ht
    split at ht
    · rename_i p hw
      split at ht
      · rename_i c hc
        cases ht
        obtain ⟨hlow, _, hright⟩ := h.watching p hw
        refine ⟨h.rv, rightUpTo_redeliver hc hlow h.resume _, ?_⟩
        intro q hq
        cases hq
        have hp := (List.getElem?_eq_some_iff.mp hc).1
        exact ⟨Nat.le_add_right_of_le hlow, hp, rightUpTo_deliver hc hright _⟩
      · cases ht
    · cases ht
  | Bookmark | InBandError =>
    simp only [step, Option.map_eq_some_iff] at ht
    obtain ⟨_, _, rfl⟩ := ht
    exact ⟨h.rv, h.resume, h.watching⟩
  | Interrupt =>
    simp only [step, Option.map_eq_some_iff] at ht
    obtain ⟨_, _, rfl⟩ := ht
    refine ⟨h.rv, h.resume, ?_⟩
    intro p hp
    cases hp

theorem resumable_notStale {s : System} (h : Resumable s) : NotStale s := by
  intro hw
  exact (current_iff s).mpr (h.watching _ hw).2.2

theorem resumable_seeded (gvk : GroupVersionKind) (log : List Change)
    (pages : List (List DynamicObject)) (h : Lists log pages) :
    Resumable (seeded gvk log pages) := by
  refine ⟨Nat.le_refl _, ?_, ?_⟩
  · refine (current_iff _).mp ?_
    intro k
    refine (has_seed_pages InformerStore.new gvk pages k).trans ?_
    refine Iff.trans ?_ (h k)
    simp [InformerStore.has, InformerStore.new]
  · intro p hp
    cases hp

/-- A run never leaves the store stale when each version that it fetches again
finds the store current. And a version fetched again beside a store that is not
current leaves it stale with the next watch. -/
theorem store_is_not_stale_when_no_change_is_missed (gvk : GroupVersionKind)
    (log : List Change) (pages : List (List DynamicObject)) (hseed : Lists log pages)
    (as : List Action) :
    (Guarded (step gvk) MissedNothing (seeded gvk log pages) as →
      Always (step gvk) NotStale (seeded gvk log pages) as) ∧
    ∀ s, exec (step gvk) (seeded gvk log pages) as = some s → s.watch = none → ¬ Current s →
      ¬ Always (step gvk) NotStale s [.WatchRefused true, .WatchOk] := by
  constructor
  · intro hg
    have hinv := Always.of_guarded (fun s a t hs hga ht => resumable_step hs hga ht)
      (resumable_seeded gvk log pages hseed) hg
    exact hinv.mono fun s hs => resumable_notStale hs
  · intro s _ hw hstale h
    have hstep : step gvk s (.WatchRefused true) =
        some { s with current_rv := s.log.length } := by
      simp only [step, hw, if_true]
    have hlast := (h.2 _ hstep).2 { s with current_rv := s.log.length, watch := some s.log.length }
      (by simp only [step, hw])
    exact hstale (hlast rfl)

/-- A config map with nothing but its name. -/
def bare_object (name : String) : DynamicObject :=
  { types := none, metadata := { name := some name }, data := .object [] }

theorem lists_one_object : Lists [.Added (bare_object "a")] [[bare_object "a"]] := by
  intro k
  by_cases hk : k = "a"
  · subst hk
    decide
  · have hne : row_key (bare_object "a") ≠ k := Ne.symm hk
    simp only [List.mem_singleton, exists_eq_left, hne, false_iff]
    simp [existing, Change.patch, applyAll, patches.apply, Patch.key, hne.symm]

/-- A deletion that the watch delivers after a broken connection. -/
theorem a_delivered_deletion_leaves_no_ghost :
    Always (step ⟨"", "v1", "ConfigMap"⟩) NotStale
      (seeded ⟨"", "v1", "ConfigMap"⟩ [.Added (bare_object "a")] [[bare_object "a"]])
      [.WatchOk, .Change (.Deleted (bare_object "a")), .Interrupt, .WatchOk, .Deliver] := by
  refine (store_is_not_stale_when_no_change_is_missed _ _ _ lists_one_object _).1 ?_
  intro s hs
  cases hs
  refine ⟨trivial, ?_⟩
  intro s hs
  cases hs
  refine ⟨trivial, ?_⟩
  intro s hs
  cases hs
  refine ⟨trivial, ?_⟩
  intro s hs
  cases hs
  exact ⟨trivial, fun s _ => ⟨trivial, trivial⟩⟩

/-- A watch is refused while an object is deleted. The version is fetched again
and the next watch starts after the deletion: the object stays in the store. -/
theorem a_deletion_beside_a_refused_watch_leaves_a_ghost :
    Lists [.Added (bare_object "a")] [[bare_object "a"]] ∧
      ¬ Always (step ⟨"", "v1", "ConfigMap"⟩) NotStale
        (seeded ⟨"", "v1", "ConfigMap"⟩ [.Added (bare_object "a")] [[bare_object "a"]])
        [.Change (.Deleted (bare_object "a")), .WatchRefused true, .WatchOk] := by
  refine ⟨lists_one_object, ?_⟩
  intro h
  have hlast := ((h.2 _ rfl).2 _ rfl).2 _ rfl
  have hghost := (hlast rfl "a").mp (by decide)
  exact absurd hghost (by decide)

end kaptein_core.store
