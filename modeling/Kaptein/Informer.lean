-- The informer manager (`informer.rs`): a cap on the watches, kept by an
-- eviction of the idle ones first and of the least recently touched one then.
import Mathlib.Data.List.Nodup

namespace kaptein_core.informer

structure WatchKey where
  group : String
  version : String
  kind : String
  namespace_ : String
  deriving DecidableEq

inductive Registration where
  | Granted
  | Denied
  deriving DecidableEq

/-- A reading of the clock, or a time between two of them. -/
abbrev Instant := Nat

structure InformerPolicy where
  max_watches : Nat
  idle_ttl : Instant

structure WatchEntry where
  key : WatchKey
  last_touched : Instant
  deriving DecidableEq

/-- The watches stand in the order in which the map iterates. No key stands twice. -/
structure InformerManager where
  policy : InformerPolicy
  watches : List WatchEntry
  distinct : (watches.map WatchEntry.key).Nodup

def InformerManager.new (policy : InformerPolicy) : InformerManager where
  policy := policy
  watches := []
  distinct := List.nodup_nil

/-- The keys that hold a slot. -/
def InformerManager.live_keys (m : InformerManager) : List WatchKey := m.watches.map WatchEntry.key

def InformerManager.live (m : InformerManager) : Nat := m.watches.length

/-! ## The map under its lock -/

/-- `HashMap::retain`. -/
def InformerManager.retain (m : InformerManager) (keep : WatchEntry → Bool) : InformerManager where
  policy := m.policy
  watches := m.watches.filter keep
  distinct := m.distinct.sublist (List.filter_sublist.map WatchEntry.key)

/-- `HashMap::remove`. -/
def InformerManager.remove (m : InformerManager) (key : WatchKey) : InformerManager :=
  m.retain fun e => e.key ≠ key

theorem map_key_touched (watches : List WatchEntry) (key : WatchKey) (now : Instant) :
    (watches.map fun e => if e.key = key then { e with last_touched := now } else e).map
      WatchEntry.key = watches.map WatchEntry.key := by
  rw [List.map_map]
  apply List.map_congr_left
  intro e _
  simp only [Function.comp_apply]
  split <;> rfl

/-- A write of `last_touched` through `get_mut`. -/
def InformerManager.set_touched (m : InformerManager) (key : WatchKey) (now : Instant) :
    InformerManager where
  policy := m.policy
  watches := m.watches.map fun e => if e.key = key then { e with last_touched := now } else e
  distinct := by
    rw [map_key_touched]
    exact m.distinct

/-- `HashMap::insert` of a key that the map does not have. -/
def InformerManager.insert (m : InformerManager) (key : WatchKey) (now : Instant)
    (h : key ∉ m.live_keys) : InformerManager where
  policy := m.policy
  watches := m.watches ++ [{ key, last_touched := now }]
  distinct := by
    rw [List.map_append]
    exact List.Nodup.append m.distinct (List.nodup_singleton _)
      (by simpa [InformerManager.live_keys] using h)

/-- `min_by_key` on `last_touched`: the first of the least. -/
def least_recently_used : List WatchEntry → Option WatchEntry
  | [] => none
  | e :: es =>
    match least_recently_used es with
    | some m => if e.last_touched ≤ m.last_touched then some e else some m
    | none => some e

/-! ## The manager -/

/-- `duration_since` gives zero for a later instant, as the subtraction does. -/
def InformerManager.evict_idle_locked (m : InformerManager) (now : Instant) : InformerManager :=
  m.retain fun e => now - e.last_touched < m.policy.idle_ttl

def InformerManager.evict_idle (m : InformerManager) (now : Instant) : InformerManager × Nat :=
  let after := m.evict_idle_locked now
  (after, m.live - after.live)

/-- Removes the least recently used entry when the map is still at its cap. -/
def InformerManager.evict_lru (m : InformerManager) : InformerManager :=
  if m.live ≥ m.policy.max_watches then
    match least_recently_used m.watches with
    | some e => m.remove e.key
    | none => m
  else m

/-- Makes room at the cap: idle entries first, then the least recently used one. -/
def InformerManager.make_room (m : InformerManager) (now : Instant) : InformerManager :=
  if m.live ≥ m.policy.max_watches then (m.evict_idle_locked now).evict_lru else m

theorem retain_live_keys (m : InformerManager) (keep : WatchEntry → Bool) :
    (m.retain keep).live_keys.Sublist m.live_keys :=
  List.filter_sublist.map WatchEntry.key

theorem evict_lru_live_keys (m : InformerManager) : m.evict_lru.live_keys.Sublist m.live_keys := by
  unfold InformerManager.evict_lru
  split
  · split
    · exact retain_live_keys _ _
    · exact List.Sublist.refl _
  · exact List.Sublist.refl _

theorem make_room_live_keys (m : InformerManager) (now : Instant) :
    (m.make_room now).live_keys.Sublist m.live_keys := by
  unfold InformerManager.make_room
  split
  · exact (evict_lru_live_keys _).trans (retain_live_keys _ _)
  · exact List.Sublist.refl _

def InformerManager.register (m : InformerManager) (key : WatchKey) (now : Instant) :
    InformerManager × Registration :=
  if h : key ∈ m.live_keys then (m.set_touched key now, .Granted)
  else
    let room := m.make_room now
    if m.policy.max_watches = 0 then (room, .Denied)
    else
      (room.insert key now fun hin => h ((make_room_live_keys m now).subset hin), .Granted)

def InformerManager.touch (m : InformerManager) (key : WatchKey) (now : Instant) :
    InformerManager × Bool :=
  if key ∈ m.live_keys then (m.set_touched key now, true) else (m, false)

def InformerManager.release (m : InformerManager) (key : WatchKey) : InformerManager × Bool :=
  (m.remove key, key ∈ m.live_keys)

/-! ## What each call does to the live keys -/

@[simp] theorem set_touched_live_keys (m : InformerManager) (key : WatchKey) (now : Instant) :
    (m.set_touched key now).live_keys = m.live_keys :=
  map_key_touched m.watches key now

@[simp] theorem touch_live_keys (m : InformerManager) (key : WatchKey) (now : Instant) :
    (m.touch key now).1.live_keys = m.live_keys := by
  unfold InformerManager.touch
  split
  · exact set_touched_live_keys m key now
  · rfl

@[simp] theorem touch_policy (m : InformerManager) (key : WatchKey) (now : Instant) :
    (m.touch key now).1.policy = m.policy := by
  unfold InformerManager.touch
  split <;> rfl

theorem live_eq (m : InformerManager) : m.live = m.live_keys.length := by
  simp [InformerManager.live, InformerManager.live_keys]

theorem mem_retain_live_keys (m : InformerManager) (keep : WatchEntry → Bool) (key : WatchKey) :
    key ∈ (m.retain keep).live_keys ↔ ∃ e ∈ m.watches, keep e ∧ e.key = key := by
  simp only [InformerManager.live_keys, InformerManager.retain, List.mem_map, List.mem_filter]
  constructor
  · rintro ⟨e, ⟨he, hk⟩, hkey⟩
    exact ⟨e, he, hk, hkey⟩
  · rintro ⟨e, he, hk, hkey⟩
    exact ⟨e, ⟨he, hk⟩, hkey⟩

theorem mem_release_live_keys (m : InformerManager) (key k : WatchKey) :
    k ∈ (m.release key).1.live_keys ↔ k ∈ m.live_keys ∧ k ≠ key := by
  unfold InformerManager.release InformerManager.remove
  rw [mem_retain_live_keys]
  simp only [InformerManager.live_keys, List.mem_map, decide_eq_true_eq]
  constructor
  · rintro ⟨e, he, hne, rfl⟩
    exact ⟨⟨e, he, rfl⟩, hne⟩
  · rintro ⟨⟨e, he, rfl⟩, hne⟩
    exact ⟨e, he, hne, rfl⟩

/-- A key that holds a slot gets it again, and nothing else changes. -/
theorem register_known (m : InformerManager) (key : WatchKey) (now : Instant)
    (h : key ∈ m.live_keys) :
    (m.register key now).2 = .Granted ∧ (m.register key now).1.live_keys = m.live_keys := by
  unfold InformerManager.register
  rw [dif_pos h]
  exact ⟨rfl, set_touched_live_keys m key now⟩

/-- Below the cap a new key gets a slot of its own. -/
theorem register_room (m : InformerManager) (key : WatchKey) (now : Instant)
    (h : key ∉ m.live_keys) (hroom : m.live < m.policy.max_watches) :
    (m.register key now).2 = .Granted ∧
      (m.register key now).1.live_keys = m.live_keys ++ [key] := by
  have hzero : m.policy.max_watches ≠ 0 := by omega
  have hkeep : m.make_room now = m := by
    unfold InformerManager.make_room
    rw [if_neg (by omega)]
  unfold InformerManager.register
  rw [dif_neg h]
  simp only [hkeep, if_neg hzero]
  exact ⟨trivial, by simp [InformerManager.live_keys, InformerManager.insert]⟩

/-- With no cap at all nothing is granted. -/
theorem register_zero (m : InformerManager) (key : WatchKey) (now : Instant)
    (h : key ∉ m.live_keys) (hzero : m.policy.max_watches = 0) :
    (m.register key now).2 = .Denied ∧
      (m.register key now).1.live_keys.Sublist m.live_keys := by
  unfold InformerManager.register
  rw [dif_neg h]
  simp only [if_pos hzero]
  exact ⟨trivial, make_room_live_keys m now⟩

theorem least_recently_used_mem (watches : List WatchEntry) (h : watches ≠ []) :
    ∃ e ∈ watches, least_recently_used watches = some e := by
  induction watches with
  | nil => exact absurd rfl h
  | cons e es ih =>
    unfold least_recently_used
    by_cases hes : es = []
    · subst hes
      exact ⟨e, List.mem_cons_self, rfl⟩
    · obtain ⟨m, hm, hlru⟩ := ih hes
      rw [hlru]
      by_cases hle : e.last_touched ≤ m.last_touched
      · exact ⟨e, List.mem_cons_self, if_pos hle⟩
      · exact ⟨m, List.mem_cons_of_mem _ hm, if_neg hle⟩

/-- At the cap some key loses its slot. -/
theorem make_room_evicts (m : InformerManager) (now : Instant)
    (hfull : m.policy.max_watches ≤ m.live) (hzero : m.policy.max_watches ≠ 0) :
    ∃ k ∈ m.live_keys, k ∉ (m.make_room now).live_keys := by
  unfold InformerManager.make_room
  rw [if_pos hfull]
  by_cases hidle : ∃ e ∈ m.watches, ¬ now - e.last_touched < m.policy.idle_ttl
  · obtain ⟨e, he, hold⟩ := hidle
    refine ⟨e.key, List.mem_map_of_mem he, ?_⟩
    intro hin
    have hin' := (evict_lru_live_keys _).subset hin
    unfold InformerManager.evict_idle_locked at hin'
    obtain ⟨d, hd, hkeep, hkey⟩ := (mem_retain_live_keys m _ e.key).mp hin'
    have hde : d = e := List.inj_on_of_nodup_map m.distinct hd he hkey
    subst hde
    exact hold (by simpa using hkeep)
  · have hsame : (m.evict_idle_locked now).watches = m.watches := by
      apply List.filter_eq_self.mpr
      intro e he
      by_contra hold
      exact hidle ⟨e, he, by simpa using hold⟩
    have hne : (m.evict_idle_locked now).watches ≠ [] := by
      rw [hsame]
      intro hnil
      have hlen : m.live = 0 := by
        unfold InformerManager.live
        rw [hnil]
        rfl
      omega
    obtain ⟨e, he, hlru⟩ := least_recently_used_mem _ hne
    refine ⟨e.key, List.mem_map_of_mem (hsame ▸ he), ?_⟩
    have hlive : (m.evict_idle_locked now).live ≥ (m.evict_idle_locked now).policy.max_watches := by
      unfold InformerManager.live
      rw [hsame]
      exact hfull
    unfold InformerManager.evict_lru
    rw [if_pos hlive, hlru]
    intro hin
    exact ((mem_release_live_keys _ _ _).mp hin).2 rfl

/-- At the cap a new key gets a slot at the cost of another key. -/
theorem register_full (m : InformerManager) (key : WatchKey) (now : Instant)
    (h : key ∉ m.live_keys) (hfull : m.policy.max_watches ≤ m.live)
    (hzero : m.policy.max_watches ≠ 0) :
    (m.register key now).2 = .Granted ∧
      ∃ k ∈ m.live_keys, k ∉ (m.register key now).1.live_keys := by
  obtain ⟨k, hk, hgone⟩ := make_room_evicts m now hfull hzero
  have hne : k ≠ key := by
    rintro rfl
    exact h hk
  unfold InformerManager.register
  rw [dif_neg h]
  simp only [if_neg hzero]
  refine ⟨trivial, k, hk, ?_⟩
  simp only [InformerManager.live_keys, InformerManager.insert, List.map_append, List.map_cons,
    List.map_nil, List.mem_append, List.mem_singleton, not_or]
  exact ⟨hgone, hne⟩

@[simp] theorem register_policy (m : InformerManager) (key : WatchKey) (now : Instant) :
    (m.register key now).1.policy = m.policy := by
  have hlru : ∀ n : InformerManager, n.evict_lru.policy = n.policy := by
    intro n
    unfold InformerManager.evict_lru
    split
    · split <;> rfl
    · rfl
  have hroom : (m.make_room now).policy = m.policy := by
    unfold InformerManager.make_room
    split
    · rw [hlru]
      rfl
    · rfl
  unfold InformerManager.register
  split
  · rfl
  · dsimp only
    split
    · exact hroom
    · exact hroom

end kaptein_core.informer
