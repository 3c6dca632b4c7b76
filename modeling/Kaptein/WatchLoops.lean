-- Watch loops that share one informer manager. A loop registers its key when
-- it starts, and its `WatchSlotGuard` releases that key when it ends, for
-- whatever reason it ends. The manager never tells a loop that it lost its slot.
import Kaptein.Lib.Runs
import Kaptein.LivePlane
import Mathlib.Data.List.Perm.Subperm

open runs kaptein_core.informer

namespace kaptein_integration.watch_loops

/-- The loops are numbered. A granted loop runs on, and a denied one lists once
and then returns. -/
structure System where
  informers : InformerManager
  running : List Nat
  degraded : List Nat

inductive Action where
  | Start (i : Nat) (now : Instant)
  | Query (i : Nat) (now : Instant)
  | EvictIdle (now : Instant)
  | Exit (i : Nat)
  | Rehash (watches : List WatchEntry)
  deriving DecidableEq

def start (policy : InformerPolicy) : System where
  informers := InformerManager.new policy
  running := []
  degraded := []

def System.Holds (s : System) (i : Nat) : Prop := i ∈ s.running ∨ i ∈ s.degraded

instance (s : System) (i : Nat) : Decidable (s.Holds i) :=
  inferInstanceAs (Decidable (_ ∨ _))

/-- The loop `i` serves the plane `planes i`. Between two actions the map of the
manager may change the order in which it iterates. -/
def step (planes : Nat → LivePlane) (s : System) : Action → Option System
  | .Start i now =>
    if s.Holds i then none
    else
      match s.informers.register (planes i).watch_key now with
      | (informers, .Granted) => some { s with informers, running := i :: s.running }
      | (informers, .Denied) => some { s with informers, degraded := i :: s.degraded }
  | .Query i now =>
    some { s with informers := (s.informers.touch (planes i).watch_key now).1 }
  | .EvictIdle now => some { s with informers := (s.informers.evict_idle now).1 }
  | .Exit i =>
    if s.Holds i then
      some {
        informers := (s.informers.release (planes i).watch_key).1
        running := s.running.filter (· ≠ i)
        degraded := s.degraded.filter (· ≠ i) }
    else none
  | .Rehash watches =>
    if h : watches.Perm s.informers.watches then
      some { s with informers :=
        { s.informers with
          watches
          distinct := (h.map WatchEntry.key).nodup_iff.mpr s.informers.distinct } }
    else none

variable {planes : Nat → LivePlane}

/-! ## The steps -/

theorem step_start {s t : System} {i : Nat} {now : Instant}
    (h : step planes s (.Start i now) = some t) :
    ¬ s.Holds i ∧ t.informers = (s.informers.register (planes i).watch_key now).1 ∧
      ((s.informers.register (planes i).watch_key now).2 = .Granted ∧
          t.running = i :: s.running ∧ t.degraded = s.degraded ∨
        (s.informers.register (planes i).watch_key now).2 = .Denied ∧
          t.running = s.running ∧ t.degraded = i :: s.degraded) := by
  simp only [step] at h
  by_cases hi : s.Holds i
  · rw [if_pos hi] at h
    cases h
  · rw [if_neg hi] at h
    refine ⟨hi, ?_⟩
    split at h
    · rename_i informers hreg
      cases h
      rw [hreg]
      exact ⟨rfl, Or.inl ⟨rfl, rfl, rfl⟩⟩
    · rename_i informers hreg
      cases h
      rw [hreg]
      exact ⟨rfl, Or.inr ⟨rfl, rfl, rfl⟩⟩

theorem step_exit {s t : System} {i : Nat} (h : step planes s (.Exit i) = some t) :
    s.Holds i ∧ t = {
      informers := (s.informers.release (planes i).watch_key).1
      running := s.running.filter (· ≠ i)
      degraded := s.degraded.filter (· ≠ i) } := by
  simp only [step] at h
  by_cases hi : s.Holds i
  · rw [if_pos hi] at h
    exact ⟨hi, (Option.some.inj h).symm⟩
  · rw [if_neg hi] at h
    cases h

/-- A new order of the map keeps the keys, the number of the watches and the loops. -/
theorem step_rehash {s t : System} {watches : List WatchEntry}
    (h : step planes s (.Rehash watches) = some t) :
    t.informers.live_keys.Perm s.informers.live_keys ∧
      t.informers.policy = s.informers.policy ∧
      t.running = s.running ∧ t.degraded = s.degraded := by
  simp only [step] at h
  by_cases hp : watches.Perm s.informers.watches
  · rw [dif_pos hp] at h
    cases h
    exact ⟨hp.map WatchEntry.key, rfl, rfl, rfl⟩
  · rw [dif_neg hp] at h
    cases h

/-- Every running loop holds the slot that it was granted. -/
def Owned (planes : Nat → LivePlane) (s : System) : Prop :=
  ∀ i ∈ s.running, (planes i).watch_key ∈ s.informers.live_keys

/-- An exit keeps the slots of the loops with other keys, and only those. -/
theorem owned_exit {s t : System} {i : Nat} (h : Owned planes s)
    (ht : step planes s (.Exit i) = some t) :
    Owned planes t ↔ ∀ j ∈ s.running, j ≠ i → (planes j).watch_key ≠ (planes i).watch_key := by
  obtain ⟨_, rfl⟩ := step_exit ht
  simp only [Owned, mem_release_live_keys, List.mem_filter, decide_eq_true_eq]
  constructor
  · intro hown j hj hne
    exact (hown j ⟨hj, hne⟩).2
  · rintro hne j ⟨hj, hji⟩
    exact ⟨h j hj, hne j hj hji⟩

theorem owned_of_same_keys {s t : System} (h : Owned planes s) (hrun : t.running = s.running)
    (hkeys : ∀ k, k ∈ t.informers.live_keys ↔ k ∈ s.informers.live_keys) : Owned planes t := by
  intro i hi
  rw [hrun] at hi
  exact (hkeys _).mpr (h i hi)

/-! ## The cap -/

/-- The cap of the manager, as the running loops should keep it. -/
def Capped (planes : Nat → LivePlane) (s : System) : Prop :=
  s.running.length ≤ s.informers.policy.max_watches ∧ Owned planes s

/-- A start at the cap and a scan that finds an idle watch take a slot from a
loop that runs. These are the actions that take none. -/
def EvictsNothing (planes : Nat → LivePlane) (s : System) : Action → Prop
  | .Start i _ =>
    (planes i).watch_key ∈ s.informers.live_keys ∨
      s.informers.live < s.informers.policy.max_watches ∨ s.informers.policy.max_watches = 0
  | .EvictIdle now =>
    ∀ e ∈ s.informers.watches, now - e.last_touched < s.informers.policy.idle_ttl
  | .Query _ _ | .Exit _ | .Rehash _ => True

/-- The slots are those of the running loops. -/
structure Matched (planes : Nat → LivePlane) (s : System) : Prop where
  owned : Owned planes s
  held : ∀ k ∈ s.informers.live_keys, ∃ i ∈ s.running, (planes i).watch_key = k
  distinct : s.running.Nodup
  cap : s.informers.live ≤ s.informers.policy.max_watches

theorem evict_idle_live_keys {m : InformerManager} {now : Instant}
    (h : ∀ e ∈ m.watches, now - e.last_touched < m.policy.idle_ttl) :
    (m.evict_idle now).1.live_keys = m.live_keys := by
  have hall : m.watches.filter (fun e => now - e.last_touched < m.policy.idle_ttl) = m.watches :=
    List.filter_eq_self.mpr fun e he => decide_eq_true (h e he)
  change (m.watches.filter _).map WatchEntry.key = _
  rw [hall]
  rfl

theorem matched_capped (hkeys : Function.Injective fun i => (planes i).watch_key) {s : System}
    (h : Matched planes s) : Capped planes s := by
  refine ⟨?_, h.owned⟩
  have hnodup : (s.running.map fun i => (planes i).watch_key).Nodup := h.distinct.map hkeys
  have hsub : (s.running.map fun i => (planes i).watch_key) ⊆ s.informers.live_keys := by
    intro k hk
    obtain ⟨i, hi, rfl⟩ := List.mem_map.mp hk
    exact h.owned i hi
  have hlen := (hnodup.subperm hsub).length_le
  rw [List.length_map, ← live_eq] at hlen
  exact Nat.le_trans hlen h.cap

theorem matched_step (hkeys : Function.Injective fun i => (planes i).watch_key)
    {s t : System} {a : Action} (h : Matched planes s) (hg : EvictsNothing planes s a)
    (ht : step planes s a = some t) : Matched planes t := by
  cases a with
  | Start i now =>
    obtain ⟨hfree, hinf, hloops⟩ := step_start ht
    have hnew : i ∉ s.running := fun hi => hfree (Or.inl hi)
    by_cases hin : (planes i).watch_key ∈ s.informers.live_keys
    · obtain ⟨j, hj, hkey⟩ := h.held _ hin
      have hji := hkeys hkey
      subst hji
      exact absurd hj hnew
    · rcases hg with hknown | hroom | hzero
      · exact absurd hknown hin
      · obtain ⟨hgranted, hlive⟩ := register_room s.informers _ now hin hroom
        rcases hloops with ⟨_, hrun, _⟩ | ⟨hdenied, _⟩
        · refine ⟨?_, ?_, ?_, ?_⟩
          · intro j hj
            rw [hrun] at hj
            rw [hinf, hlive, List.mem_append]
            rcases List.mem_cons.mp hj with rfl | hj
            · exact Or.inr (List.mem_singleton_self _)
            · exact Or.inl (h.owned j hj)
          · intro k hk
            rw [hinf, hlive, List.mem_append, List.mem_singleton] at hk
            rw [hrun]
            rcases hk with hk | rfl
            · obtain ⟨j, hj, hkey⟩ := h.held k hk
              exact ⟨j, List.mem_cons_of_mem _ hj, hkey⟩
            · exact ⟨i, List.mem_cons_self, rfl⟩
          · rw [hrun]
            exact List.nodup_cons.mpr ⟨hnew, h.distinct⟩
          · rw [hinf, live_eq, hlive, register_policy, List.length_append, ← live_eq]
            exact hroom
        · rw [hgranted] at hdenied
          cases hdenied
      · obtain ⟨hdenied, hlive⟩ := register_zero s.informers _ now hin hzero
        rcases hloops with ⟨hgranted, _⟩ | ⟨_, hrun, _⟩
        · rw [hdenied] at hgranted
          cases hgranted
        · have hcap := h.cap
          have hempty : s.informers.live_keys = [] := by
            rw [hzero, live_eq] at hcap
            exact List.eq_nil_of_length_eq_zero (Nat.le_zero.mp hcap)
          have hempty' : t.informers.live_keys = [] := by
            rw [hinf]
            exact List.sublist_nil.mp (hempty ▸ hlive)
          refine ⟨?_, ?_, ?_, ?_⟩
          · intro j hj
            rw [hrun] at hj
            have hj' := h.owned j hj
            rw [hempty] at hj'
            cases hj'
          · intro k hk
            rw [hempty'] at hk
            cases hk
          · rw [hrun]
            exact h.distinct
          · rw [live_eq, hempty']
            exact Nat.zero_le _
  | Query i now =>
    cases ht
    have hlive := touch_live_keys s.informers (planes i).watch_key now
    refine ⟨owned_of_same_keys h.owned rfl (fun k => by rw [hlive]), ?_, h.distinct, ?_⟩
    · intro k hk
      rw [hlive] at hk
      exact h.held k hk
    · have hcap := h.cap
      rw [live_eq] at hcap ⊢
      rw [hlive, touch_policy]
      exact hcap
  | EvictIdle now =>
    cases ht
    have hlive := evict_idle_live_keys hg
    refine ⟨owned_of_same_keys h.owned rfl (fun k => by rw [hlive]), ?_, h.distinct, ?_⟩
    · intro k hk
      rw [hlive] at hk
      exact h.held k hk
    · have hcap := h.cap
      rw [live_eq] at hcap ⊢
      rw [hlive]
      exact hcap
  | Exit i =>
    have hown := (owned_exit h.owned ht).mpr fun j _ hji hkey => hji (hkeys hkey)
    obtain ⟨_, rfl⟩ := step_exit ht
    refine ⟨hown, ?_, h.distinct.filter _, ?_⟩
    · intro k hk
      obtain ⟨hk, hne⟩ := (mem_release_live_keys _ _ _).mp hk
      obtain ⟨j, hj, rfl⟩ := h.held k hk
      refine ⟨j, List.mem_filter.mpr ⟨hj, ?_⟩, rfl⟩
      have hji : j ≠ i := by
        rintro rfl
        exact hne rfl
      exact decide_eq_true hji
    · exact Nat.le_trans (List.length_filter_le _ _) h.cap
  | Rehash watches =>
    obtain ⟨hperm, hpol, hrun, _⟩ := step_rehash ht
    refine ⟨owned_of_same_keys h.owned hrun (fun k => hperm.mem_iff), ?_, ?_, ?_⟩
    · intro k hk
      rw [hrun]
      exact h.held k (hperm.mem_iff.mp hk)
    · rw [hrun]
      exact h.distinct
    · have hcap := h.cap
      rw [live_eq] at hcap ⊢
      rw [hperm.length_eq, hpol]
      exact hcap

/-- An eviction leaves a loop running without its slot. -/
theorem eviction_breaks_the_cap {s t : System} {a : Action} (h : Matched planes s)
    (hg : ¬ EvictsNothing planes s a) (ht : step planes s a = some t) : ¬ Capped planes t := by
  rintro ⟨_, hown⟩
  cases a with
  | Start i now =>
    obtain ⟨_, hinf, hloops⟩ := step_start ht
    simp only [EvictsNothing, not_or, Nat.not_lt] at hg
    obtain ⟨hin, hfull, hzero⟩ := hg
    obtain ⟨hgranted, k, hk, hgone⟩ := register_full s.informers _ now hin hfull hzero
    obtain ⟨j, hj, rfl⟩ := h.held k hk
    rcases hloops with ⟨_, hrun, _⟩ | ⟨hdenied, _⟩
    · have hj' := hown j (by rw [hrun]; exact List.mem_cons_of_mem _ hj)
      rw [hinf] at hj'
      exact hgone hj'
    · rw [hgranted] at hdenied
      cases hdenied
  | EvictIdle now =>
    cases ht
    simp only [EvictsNothing, not_forall] at hg
    obtain ⟨e, he, hold⟩ := hg
    obtain ⟨j, hj, hkey⟩ := h.held e.key (List.mem_map_of_mem he)
    have hj' := hown j hj
    obtain ⟨d, hd, hkeep, hdkey⟩ := (mem_retain_live_keys s.informers _ _).mp hj'
    have hde : d = e := List.inj_on_of_nodup_map s.informers.distinct hd he (hdkey.trans hkey)
    subst hde
    exact hold (by simpa using hkeep)
  | Query i now => exact hg trivial
  | Exit i => exact hg trivial
  | Rehash watches => exact hg trivial

/-- For planes with distinct keys, the loops keep the cap and their slots through
a whole run exactly when no step of the run evicts a watch. -/
theorem loops_keep_the_cap_iff_nothing_is_evicted (planes : Nat → LivePlane)
    (hkeys : Function.Injective fun i => (planes i).watch_key) (policy : InformerPolicy)
    (as : List Action) :
    Always (step planes) (Capped planes) (start policy) as ↔
      Guarded (step planes) (EvictsNothing planes) (start policy) as := by
  have hstart : Matched planes (start policy) :=
    ⟨fun i hi => (List.not_mem_nil hi).elim, fun k hk => (List.not_mem_nil hk).elim,
      List.nodup_nil, Nat.zero_le _⟩
  exact always_iff_guarded (fun s hs => matched_capped hkeys hs)
    (fun s a t _ hs hg ht => matched_step hkeys hs hg ht)
    (fun s a t _ hs hg ht => eviction_breaks_the_cap hs hg ht) hstart
    (A := fun _ => True) (fun _ _ => trivial)

/-- A plane of the pods of one namespace. -/
def pods_in (namespace_ : String) : LivePlane where
  mem := .new []
  gvk := ⟨"", "v1", "Pod"⟩
  namespace_ := some namespace_
  lens := none

/-- A plane for each number, each of another namespace. -/
def many_planes (i : Nat) : LivePlane := pods_in (String.ofList (List.replicate i 'a'))

theorem many_planes_differ : Function.Injective fun i => (many_planes i).watch_key := by
  intro i j hij
  have hns : String.ofList (List.replicate i 'a') = String.ofList (List.replicate j 'a') :=
    congrArg WatchKey.namespace_ hij
  have hlen := congrArg (fun s => s.toList.length) hns
  simpa using hlen

/-- Two starts below a cap of two, and an exit. -/
theorem two_loops_keep_a_cap_of_two :
    Always (step many_planes) (Capped many_planes) (start ⟨2, 300⟩)
      [.Start 0 0, .Start 1 1, .Exit 0] := by
  refine (loops_keep_the_cap_iff_nothing_is_evicted many_planes many_planes_differ ⟨2, 300⟩
    [.Start 0 0, .Start 1 1, .Exit 0]).mpr ?_
  intro s hs
  cases hs
  refine ⟨Or.inr (Or.inl (by decide)), ?_⟩
  intro t ht
  cases ht
  refine ⟨Or.inr (Or.inl (by decide)), ?_⟩
  intro u _
  exact ⟨trivial, trivial⟩

/-- A cap of one: the second start evicts the first watch, and both loops run. -/
theorem an_evicted_loop_runs_on :
    (Function.Injective fun i => (many_planes i).watch_key) ∧
      ¬ Always (step many_planes) (Capped many_planes) (start ⟨1, 300⟩)
        [.Start 0 0, .Start 1 1] := by
  refine ⟨many_planes_differ, ?_⟩
  intro h
  obtain ⟨hlen, _⟩ := (h.2 _ rfl).2 _ rfl
  exact absurd hlen (by decide)

/-! ## The owner of a slot -/

/-- An exit of a loop that shares its key with no other running loop. -/
def ExitsAlone (planes : Nat → LivePlane) (s : System) : Action → Prop
  | .Exit i => ∀ j ∈ s.running, j ≠ i → (planes j).watch_key ≠ (planes i).watch_key
  | .Start _ _ | .Query _ _ | .EvictIdle _ | .Rehash _ => True

/-- The starts use these keys, and nobody asks for an eviction of idle watches. -/
def Uses (planes : Nat → LivePlane) (keys : List WatchKey) : Action → Prop
  | .Start i _ => (planes i).watch_key ∈ keys
  | .EvictIdle _ => False
  | .Query _ _ | .Exit _ | .Rehash _ => True

/-- There is always a free slot left. -/
structure Roomy (planes : Nat → LivePlane) (keys : List WatchKey) (s : System) : Prop where
  owned : Owned planes s
  known : s.informers.live_keys ⊆ keys
  room : keys.length < s.informers.policy.max_watches

theorem roomy_step {keys : List WatchKey} {s t : System} {a : Action} (ha : Uses planes keys a)
    (h : Roomy planes keys s) (hg : ExitsAlone planes s a) (ht : step planes s a = some t) :
    Roomy planes keys t := by
  cases a with
  | Start i now =>
    obtain ⟨_, hinf, hloops⟩ := step_start ht
    have hroom : s.informers.live < s.informers.policy.max_watches := by
      have hlen := (s.informers.distinct.subperm h.known).length_le
      have hlive := live_eq s.informers
      have hmax := h.room
      unfold InformerManager.live_keys at hlive
      omega
    have hreg : (s.informers.register (planes i).watch_key now).2 = .Granted ∧
        ∀ k, k ∈ (s.informers.register (planes i).watch_key now).1.live_keys ↔
          k ∈ s.informers.live_keys ∨ k = (planes i).watch_key := by
      by_cases hin : (planes i).watch_key ∈ s.informers.live_keys
      · obtain ⟨hgranted, hlive⟩ := register_known s.informers _ now hin
        refine ⟨hgranted, ?_⟩
        intro k
        rw [hlive]
        constructor
        · exact Or.inl
        · rintro (hk | rfl)
          · exact hk
          · exact hin
      · obtain ⟨hgranted, hlive⟩ := register_room s.informers _ now hin hroom
        refine ⟨hgranted, ?_⟩
        intro k
        rw [hlive, List.mem_append, List.mem_singleton]
    obtain ⟨hgranted, hlive⟩ := hreg
    rcases hloops with ⟨_, hrun, _⟩ | ⟨hdenied, _⟩
    · refine ⟨?_, ?_, ?_⟩
      · intro j hj
        rw [hrun] at hj
        rw [hinf, hlive]
        rcases List.mem_cons.mp hj with rfl | hj
        · exact Or.inr rfl
        · exact Or.inl (h.owned j hj)
      · intro k hk
        rw [hinf, hlive] at hk
        rcases hk with hk | rfl
        · exact h.known hk
        · exact ha
      · rw [hinf, register_policy]
        exact h.room
    · rw [hgranted] at hdenied
      cases hdenied
  | Query i now =>
    cases ht
    have hlive := touch_live_keys s.informers (planes i).watch_key now
    refine ⟨owned_of_same_keys h.owned rfl (fun k => by rw [hlive]), ?_, ?_⟩
    · rw [hlive]
      exact h.known
    · rw [touch_policy]
      exact h.room
  | EvictIdle now => exact ha.elim
  | Exit i =>
    have hown := (owned_exit h.owned ht).mpr hg
    obtain ⟨_, rfl⟩ := step_exit ht
    exact ⟨hown, fun k hk => h.known ((mem_release_live_keys _ _ _).mp hk).1, h.room⟩
  | Rehash watches =>
    obtain ⟨hperm, hpol, hrun, _⟩ := step_rehash ht
    refine ⟨owned_of_same_keys h.owned hrun (fun k => hperm.mem_iff), ?_, ?_⟩
    · intro k hk
      exact h.known (hperm.mem_iff.mp hk)
    · rw [hpol]
      exact h.room

/-- With fewer keys in use than the cap, each running loop keeps its slot through
a whole run exactly when no loop exits beside another loop of its key. -/
theorem loops_keep_their_slots_iff_they_exit_alone (planes : Nat → LivePlane)
    (policy : InformerPolicy) (keys : List WatchKey) (hfew : keys.length < policy.max_watches)
    (as : List Action) (huses : ∀ a ∈ as, Uses planes keys a) :
    Always (step planes) (Owned planes) (start policy) as ↔
      Guarded (step planes) (ExitsAlone planes) (start policy) as := by
  have hstart : Roomy planes keys (start policy) :=
    ⟨fun i hi => (List.not_mem_nil hi).elim, List.nil_subset _, hfew⟩
  refine always_iff_guarded (fun s hs => hs.owned)
    (fun s a t ha hs hg ht => roomy_step ha hs hg ht) ?_ hstart huses
  intro s a t _ hs hg ht hown
  cases a with
  | Exit i => exact hg ((owned_exit hs.owned ht).mp hown)
  | Start i now => exact hg trivial
  | Query i now => exact hg trivial
  | EvictIdle now => exact hg trivial
  | Rehash watches => exact hg trivial

/-- A loop that starts after the exit of the one before it. -/
theorem a_later_loop_of_the_same_key_keeps_its_slot :
    Always (step fun _ => pods_in "a") (Owned fun _ => pods_in "a") (start ⟨16, 300⟩)
      [.Start 0 0, .Exit 0, .Start 1 1] := by
  refine (loops_keep_their_slots_iff_they_exit_alone (fun _ => pods_in "a") ⟨16, 300⟩
    [(pods_in "a").watch_key] (by decide) [.Start 0 0, .Exit 0, .Start 1 1] ?_).mpr ?_
  · intro a ha
    simp only [List.mem_cons, List.not_mem_nil, or_false] at ha
    rcases ha with rfl | rfl | rfl
    · exact List.mem_singleton_self _
    · trivial
    · exact List.mem_singleton_self _
  · intro s hs
    cases hs
    refine ⟨trivial, ?_⟩
    intro t ht
    cases ht
    refine ⟨?_, fun u _ => ⟨trivial, trivial⟩⟩
    intro j hj hne
    exact absurd (List.mem_singleton.mp hj) hne

/-- The old loop of a key exits after the new one has registered: the new loop
runs on without a slot. -/
theorem an_exit_releases_the_slot_of_a_later_loop :
    ¬ Always (step fun _ => pods_in "a") (Owned fun _ => pods_in "a") (start ⟨16, 300⟩)
      [.Start 0 0, .Start 1 1, .Exit 0] := by
  intro h
  have hown := ((h.2 _ rfl).2 _ rfl).2 _ rfl
  have hkey := hown 1 (by decide)
  exact absurd hkey (by decide)

end kaptein_integration.watch_loops
