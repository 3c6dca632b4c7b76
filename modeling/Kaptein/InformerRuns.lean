-- Runs of the informer manager: the cap holds after any calls, a new watch is
-- always let in, and the watch that goes for it is one that fewer other views
-- wanted since.
import Kaptein.Informer
import Mathlib.Data.List.Dedup
import Mathlib.Data.List.Perm.Subperm

namespace kaptein_core.informer

/-! ## Calls -/

/-- A call of the manager. A release does not read the clock. -/
inductive Call where
  | register (key : WatchKey) (now : Instant)
  | touch (key : WatchKey) (now : Instant)
  | release (key : WatchKey)
  | evict_idle (now : Instant)
  deriving DecidableEq

/-- The reading of the clock that a call takes. -/
def Call.reading : Call → Option Instant
  | .register _ now | .touch _ now | .evict_idle now => some now
  | .release _ => none

def InformerManager.step (m : InformerManager) : Call → InformerManager
  | .register key now => (m.register key now).1
  | .touch key now => (m.touch key now).1
  | .release key => (m.release key).1
  | .evict_idle now => (m.evict_idle now).1

def InformerManager.run (m : InformerManager) (calls : List Call) : InformerManager :=
  calls.foldl InformerManager.step m

/-- The key that a call registers or touches. A touch of an unknown key is none. -/
def InformerManager.uses (m : InformerManager) : Call → Option WatchKey
  | .register key _ => some key
  | .touch key _ => if key ∈ m.live_keys then some key else none
  | .release _ | .evict_idle _ => none

/-- The keys that the calls of a run register or touch. -/
def InformerManager.used_keys (m : InformerManager) : List Call → List WatchKey
  | [] => []
  | c :: calls => (m.uses c).toList ++ (m.step c).used_keys calls

/-- The moment of an eviction scan: `evict_idle`, or `register` of a new key at the cap. -/
def InformerManager.scan (m : InformerManager) : Call → Option Instant
  | .register key now =>
    if key ∉ m.live_keys ∧ m.live ≥ m.policy.max_watches then some now else none
  | .evict_idle now => some now
  | .touch _ _ | .release _ => none

/-- The moments of the eviction scans of a run. -/
def InformerManager.scans (m : InformerManager) : List Call → List Instant
  | [] => []
  | c :: calls => (m.scan c).toList ++ (m.step c).scans calls

/-! ## What one call does -/

@[simp] theorem step_policy (m : InformerManager) (c : Call) : (m.step c).policy = m.policy := by
  cases c with
  | register key now => exact register_policy m key now
  | touch key now => exact touch_policy m key now
  | release key => rfl
  | evict_idle now => rfl

theorem mem_set_touched {m : InformerManager} {key : WatchKey} {now : Instant} {e : WatchEntry}
    (h : e ∈ (m.set_touched key now).watches) :
    (e ∈ m.watches ∧ e.key ≠ key) ∨ (e.key = key ∧ e.last_touched = now) := by
  obtain ⟨d, hd, rfl⟩ := List.mem_map.mp h
  split_ifs with hk
  · exact Or.inr ⟨hk, rfl⟩
  · exact Or.inl ⟨hd, hk⟩

theorem mem_set_touched_of_ne {m : InformerManager} {key : WatchKey} (now : Instant)
    {e : WatchEntry} (he : e ∈ m.watches) (hne : e.key ≠ key) :
    e ∈ (m.set_touched key now).watches := by
  apply List.mem_map.mpr
  exact ⟨e, he, if_neg hne⟩

theorem mem_evict_lru {m : InformerManager} {e : WatchEntry} (h : e ∈ m.evict_lru.watches) :
    e ∈ m.watches := by
  unfold InformerManager.evict_lru at h
  split at h
  · split at h
    · exact List.mem_of_mem_filter h
    · exact h
  · exact h

theorem mem_make_room {m : InformerManager} {now : Instant} {e : WatchEntry}
    (h : e ∈ (m.make_room now).watches) : e ∈ m.watches := by
  unfold InformerManager.make_room at h
  split at h
  · exact List.mem_of_mem_filter (mem_evict_lru h)
  · exact h

/-- An entry after a call is an old one of a key that the call does not use, or a fresh
one of the key that it uses. -/
theorem step_entries {m : InformerManager} {c : Call} {e : WatchEntry}
    (h : e ∈ (m.step c).watches) :
    (e ∈ m.watches ∧ m.uses c ≠ some e.key) ∨
      (m.uses c = some e.key ∧ c.reading = some e.last_touched) := by
  cases c with
  | register key now =>
    simp only [InformerManager.step, InformerManager.register] at h
    simp only [InformerManager.uses, Call.reading, ne_eq, Option.some.injEq]
    split at h
    · rcases mem_set_touched h with ⟨he, hne⟩ | ⟨hk, ht⟩
      · exact Or.inl ⟨he, Ne.symm hne⟩
      · exact Or.inr ⟨hk.symm, ht.symm⟩
    · rename_i hnew
      have hold : ∀ d ∈ m.watches, ¬ key = d.key := by
        rintro d hd rfl
        exact hnew (List.mem_map_of_mem hd)
      split at h
      · have he := mem_make_room h
        exact Or.inl ⟨he, hold e he⟩
      · rcases List.mem_append.mp h with h | h
        · have he := mem_make_room h
          exact Or.inl ⟨he, hold e he⟩
        · rw [List.mem_singleton] at h
          subst h
          exact Or.inr ⟨rfl, rfl⟩
  | touch key now =>
    simp only [InformerManager.step, InformerManager.touch] at h
    simp only [InformerManager.uses, Call.reading]
    split at h
    · rename_i hin
      rw [if_pos hin]
      rcases mem_set_touched h with ⟨he, hne⟩ | ⟨hk, ht⟩
      · exact Or.inl ⟨he, fun heq => hne (Option.some.inj heq).symm⟩
      · exact Or.inr ⟨by rw [hk], by rw [ht]⟩
    · rename_i hin
      rw [if_neg hin]
      exact Or.inl ⟨h, by simp⟩
  | release key => exact Or.inl ⟨List.mem_of_mem_filter h, by simp [InformerManager.uses]⟩
  | evict_idle now => exact Or.inl ⟨List.mem_of_mem_filter h, by simp [InformerManager.uses]⟩

theorem least_recently_used_le {watches : List WatchEntry} {e : WatchEntry}
    (h : least_recently_used watches = some e) :
    e ∈ watches ∧ ∀ d ∈ watches, e.last_touched ≤ d.last_touched := by
  induction watches generalizing e with
  | nil => cases h
  | cons a es ih =>
    unfold least_recently_used at h
    cases hlru : least_recently_used es with
    | none =>
      have hes : es = [] := by
        by_contra hne
        obtain ⟨d, _, hd⟩ := least_recently_used_mem es hne
        rw [hlru] at hd
        cases hd
      rw [hlru] at h
      cases h
      subst hes
      simp
    | some b =>
      rw [hlru] at h
      obtain ⟨hb, hmin⟩ := ih hlru
      simp only at h
      split at h
      · rename_i hle
        cases h
        refine ⟨List.mem_cons_self, ?_⟩
        intro d hd
        rcases List.mem_cons.mp hd with rfl | hd
        · exact Nat.le_refl _
        · exact Nat.le_trans hle (hmin d hd)
      · rename_i hgt
        cases h
        refine ⟨List.mem_cons_of_mem _ hb, ?_⟩
        intro d hd
        rcases List.mem_cons.mp hd with rfl | hd
        · exact Nat.le_of_not_le hgt
        · exact hmin d hd

/-- The calls that take an entry away from its key: a release, a scan that finds it idle,
or a new key that finds it the least recently used one of a full map. -/
theorem step_keeps {m : InformerManager} {c : Call} {e : WatchEntry} (he : e ∈ m.watches)
    (hrelease : c ≠ .release e.key) (huse : m.uses c ≠ some e.key)
    (hidle : ∀ now, m.scan c = some now → now - e.last_touched < m.policy.idle_ttl) :
    e ∈ (m.step c).watches ∨
      ∃ key now, c = .register key now ∧ key ∉ m.live_keys ∧
        m.policy.max_watches ≤ (m.evict_idle_locked now).live ∧
        least_recently_used (m.evict_idle_locked now).watches = some e := by
  cases c with
  | register key now =>
    simp only [InformerManager.uses, ne_eq, Option.some.injEq] at huse
    have hroom : e ∈ (m.make_room now).watches ∨ key ∉ m.live_keys →
        e ∈ (m.make_room now).watches ∨
          (m.policy.max_watches ≤ (m.evict_idle_locked now).live ∧
            least_recently_used (m.evict_idle_locked now).watches = some e) := by
      rintro (h | hnew)
      · exact Or.inl h
      · unfold InformerManager.make_room
        split
        · rename_i hfull
          have hstays : e ∈ (m.evict_idle_locked now).watches := by
            apply List.mem_filter.mpr
            refine ⟨he, ?_⟩
            simpa using hidle now (by simp [InformerManager.scan, hnew, hfull])
          unfold InformerManager.evict_lru
          split
          · rename_i hstill
            split
            · rename_i d hlru
              by_cases hde : d.key = e.key
              · have hd := (least_recently_used_le hlru).1
                have heq : d = e :=
                  List.inj_on_of_nodup_map (m.evict_idle_locked now).distinct hd hstays hde
                exact Or.inr ⟨hstill, by rw [hlru, heq]⟩
              · apply Or.inl
                apply List.mem_filter.mpr
                exact ⟨hstays, by simpa using Ne.symm hde⟩
            · exact Or.inl hstays
          · exact Or.inl hstays
        · exact Or.inl he
    simp only [InformerManager.step, InformerManager.register]
    split
    · exact Or.inl (mem_set_touched_of_ne now he (Ne.symm huse))
    · rename_i hnew
      rcases hroom (Or.inr hnew) with h | ⟨hfull, hlru⟩
      · apply Or.inl
        split
        · exact h
        · exact List.mem_append_left _ h
      · exact Or.inr ⟨key, now, rfl, hnew, hfull, hlru⟩
  | touch key now =>
    apply Or.inl
    simp only [InformerManager.step, InformerManager.touch]
    split
    · rename_i hin
      simp only [InformerManager.uses, if_pos hin, ne_eq, Option.some.injEq] at huse
      exact mem_set_touched_of_ne now he (Ne.symm huse)
    · exact he
  | release key =>
    apply Or.inl
    apply List.mem_filter.mpr
    refine ⟨he, ?_⟩
    have hne : e.key ≠ key := fun heq => hrelease (by rw [heq])
    simpa using hne
  | evict_idle now =>
    apply Or.inl
    apply List.mem_filter.mpr
    exact ⟨he, by simpa using hidle now rfl⟩

/-! ## The cap -/

theorem length_retain (m : InformerManager) (keep : WatchEntry → Bool) :
    (m.retain keep).live ≤ m.live := by
  rw [live_eq, live_eq]
  exact (retain_live_keys m keep).length_le

theorem make_room_live_lt {m : InformerManager} (now : Instant)
    (hcap : m.live ≤ m.policy.max_watches) (hzero : m.policy.max_watches ≠ 0) :
    (m.make_room now).live < m.policy.max_watches := by
  by_cases hfull : m.policy.max_watches ≤ m.live
  · obtain ⟨k, hk, hgone⟩ := make_room_evicts m now hfull hzero
    have hsub := make_room_live_keys m now
    by_contra hlt
    have hlen : m.live_keys.length ≤ (m.make_room now).live_keys.length := by
      rw [← live_eq, ← live_eq]
      omega
    rw [hsub.eq_of_length_le hlen] at hgone
    exact hgone hk
  · have hsame : m.make_room now = m := by
      unfold InformerManager.make_room
      rw [if_neg (by omega)]
    rw [hsame]
    omega

theorem step_cap {m : InformerManager} (c : Call) (hcap : m.live ≤ m.policy.max_watches) :
    (m.step c).live ≤ m.policy.max_watches := by
  cases c with
  | register key now =>
    simp only [InformerManager.step, InformerManager.register]
    split
    · rw [live_eq, set_touched_live_keys, ← live_eq]
      exact hcap
    · split
      · have hroom := (make_room_live_keys m now).length_le
        rw [← live_eq, ← live_eq] at hroom
        exact Nat.le_trans hroom hcap
      · rename_i hzero
        have hroom := make_room_live_lt now hcap hzero
        simp only [InformerManager.live, InformerManager.insert, List.length_append,
          List.length_singleton]
        exact hroom
  | touch key now =>
    have hsame := touch_live_keys m key now
    change (m.touch key now).1.live ≤ _
    rw [live_eq, hsame, ← live_eq]
    exact hcap
  | release key => exact Nat.le_trans (length_retain _ _) hcap
  | evict_idle now => exact Nat.le_trans (length_retain _ _) hcap

@[simp] theorem run_policy (m : InformerManager) (calls : List Call) :
    (m.run calls).policy = m.policy := by
  induction calls generalizing m with
  | nil => rfl
  | cons c calls ih =>
    change ((m.step c).run calls).policy = _
    rw [ih, step_policy]

theorem run_cap {m : InformerManager} (calls : List Call) (hcap : m.live ≤ m.policy.max_watches) :
    (m.run calls).live ≤ m.policy.max_watches := by
  induction calls generalizing m with
  | nil => exact hcap
  | cons c calls ih =>
    have hstep := step_cap c hcap
    rw [← step_policy m c] at hstep
    have hrun := ih hstep
    rw [step_policy] at hrun
    exact hrun

/-- With a cap of one or more a new watch is always let in. -/
theorem register_grants (m : InformerManager) (key : WatchKey) (now : Instant)
    (hcap : 1 ≤ m.policy.max_watches) :
    (m.register key now).2 = .Granted ∧ key ∈ (m.register key now).1.live_keys := by
  by_cases hin : key ∈ m.live_keys
  · obtain ⟨hgranted, hlive⟩ := register_known m key now hin
    rw [hlive]
    exact ⟨hgranted, hin⟩
  · have hzero : m.policy.max_watches ≠ 0 := by omega
    unfold InformerManager.register
    rw [dif_neg hin]
    simp only [if_neg hzero]
    exact ⟨trivial, by simp [InformerManager.live_keys, InformerManager.insert]⟩

/-! ## The watch that stays -/

theorem run_append (m : InformerManager) (a b : List Call) :
    m.run (a ++ b) = (m.run a).run b := by
  simp [InformerManager.run, List.foldl_append]

/-- Every entry of a run was there before it or carries a reading of its clock. -/
theorem run_entries {m : InformerManager} {calls : List Call} {e : WatchEntry}
    (h : e ∈ (m.run calls).watches) :
    e ∈ m.watches ∨ e.last_touched ∈ calls.filterMap Call.reading := by
  induction calls generalizing m with
  | nil => exact Or.inl h
  | cons c calls ih =>
    rcases ih h with hold | hread
    · rcases step_entries hold with ⟨he, -⟩ | ⟨-, hread⟩
      · exact Or.inl he
      · exact Or.inr (List.mem_filterMap.mpr ⟨c, List.mem_cons_self, hread⟩)
    · obtain ⟨d, hd, hdr⟩ := List.mem_filterMap.mp hread
      exact Or.inr (List.mem_filterMap.mpr ⟨d, List.mem_cons_of_mem _ hd, hdr⟩)

/-- Since its last use, at the given moment, a key is released by no call and found idle
by no scan, and fewer other keys are used than the cap has room for. -/
structure Wanted (m : InformerManager) (key : WatchKey) (used_at : Instant) (calls : List Call) :
    Prop where
  not_released : Call.release key ∉ calls
  last_use : key ∉ m.used_keys calls
  not_idle : ∀ now ∈ m.scans calls, now - used_at < m.policy.idle_ttl
  few_others : (m.used_keys calls).dedup.length < m.policy.max_watches

/-- The least recently used of a full map has been passed by as many other keys as the
cap has room for, the new one included. -/
theorem passed_by {m : InformerManager} {e : WatchEntry} {key : WatchKey} {now : Instant}
    {seen : List WatchKey} (hnew : key ∉ m.live_keys) (hkey : e.key ≠ key)
    (hfull : m.policy.max_watches ≤ (m.evict_idle_locked now).live)
    (hlru : least_recently_used (m.evict_idle_locked now).watches = some e)
    (hseen : ∀ d ∈ m.watches, d.key ≠ e.key → d.last_touched < e.last_touched ∨ d.key ∈ seen)
    (hmem : key ∈ seen) : m.policy.max_watches ≤ seen.dedup.length := by
  let live := (m.evict_idle_locked now).live_keys
  obtain ⟨hin, hmin⟩ := least_recently_used_le hlru
  have hsub : live.Sublist m.live_keys := retain_live_keys _ _
  have hnodup : (key :: live.erase e.key).Nodup := by
    apply List.nodup_cons.mpr
    refine ⟨?_, (m.evict_idle_locked now).distinct.erase _⟩
    intro h
    exact hnew (hsub.subset (List.mem_of_mem_erase h))
  have hall : key :: live.erase e.key ⊆ seen.dedup := by
    intro k hk
    rw [List.mem_dedup]
    rcases List.mem_cons.mp hk with rfl | hk
    · exact hmem
    · obtain ⟨hne, hk⟩ := ((m.evict_idle_locked now).distinct.mem_erase_iff).mp hk
      obtain ⟨d, hd, rfl⟩ := List.mem_map.mp hk
      rcases hseen d (List.mem_of_mem_filter hd) hne with hlt | h
      · exact absurd (hmin d hd) (Nat.not_le_of_lt hlt)
      · exact h
  have hlen := (hnodup.subperm hall).length_le
  have hein : e.key ∈ live := List.mem_map_of_mem hin
  rw [List.length_cons, List.length_erase_of_mem hein] at hlen
  have hpos : 0 < live.length := List.length_pos_of_mem hein
  rw [live_eq] at hfull
  change _ ≤ live.length at hfull
  omega

/-- By induction over the calls: the entry stays, and every other one is older than it
or belongs to a key that was used since. -/
theorem wanted_stays {m : InformerManager} {e : WatchEntry} {calls : List Call}
    {seen : List WatchKey} (he : e ∈ m.watches)
    (hseen : ∀ d ∈ m.watches, d.key ≠ e.key → d.last_touched < e.last_touched ∨ d.key ∈ seen)
    (hrelease : Call.release e.key ∉ calls) (huse : e.key ∉ m.used_keys calls)
    (hidle : ∀ now ∈ m.scans calls, now - e.last_touched < m.policy.idle_ttl)
    (hfew : (seen ++ m.used_keys calls).dedup.length < m.policy.max_watches) :
    e ∈ (m.run calls).watches := by
  induction calls generalizing m seen with
  | nil => exact he
  | cons c calls ih =>
    simp only [InformerManager.used_keys, List.mem_append, not_or, Option.mem_toList] at huse
    simp only [InformerManager.scans, List.mem_append, Option.mem_toList] at hidle
    simp only [InformerManager.used_keys] at hfew
    rw [List.mem_cons, not_or] at hrelease
    have hstep := step_keeps he (Ne.symm hrelease.1) huse.1 fun now h => hidle now (Or.inl h)
    rcases hstep with hstays | ⟨key, now, rfl, hnew, hfull, hlru⟩
    · apply ih hstays _ hrelease.2 huse.2
      · intro now h
        rw [step_policy]
        exact hidle now (Or.inr h)
      · rw [step_policy]
        rw [← List.append_assoc] at hfew
        exact hfew
      · intro d hd hne
        rcases step_entries hd with ⟨hold, -⟩ | ⟨hfresh, -⟩
        · rcases hseen d hold hne with hlt | h
          · exact Or.inl hlt
          · exact Or.inr (List.mem_append_left _ h)
        · exact Or.inr (List.mem_append_right _ (by rw [hfresh]; simp))
    · have hkey : e.key ≠ key := by
        rintro rfl
        exact hnew (List.mem_map_of_mem he)
      apply absurd hfew
      apply Nat.not_lt_of_le
      apply passed_by hnew hkey hfull hlru
      · intro d hd hne
        exact (hseen d hd hne).imp_right (List.mem_append_left _)
      · apply List.mem_append_right
        apply List.mem_append_left
        simp [InformerManager.uses]

/-- A call that registers or touches a key, at a moment. -/
def Call.Uses (c : Call) (key : WatchKey) (used_at : Instant) : Prop :=
  c = .register key used_at ∨ c = .touch key used_at

/-- The entry right after such a call, if the key is live, carries its moment. -/
theorem used_entry {m : InformerManager} {c : Call} {key : WatchKey} {used_at : Instant}
    (huse : c.Uses key used_at) (hlive : key ∈ (m.step c).live_keys) :
    (⟨key, used_at⟩ : WatchEntry) ∈ (m.step c).watches := by
  obtain ⟨e, he, rfl⟩ := List.mem_map.mp hlive
  have hread : c.reading = some used_at := by
    rcases huse with rfl | rfl <;> rfl
  rcases step_entries he with ⟨hold, hne⟩ | ⟨-, ht⟩
  · have hkey : e.key ∈ m.live_keys := List.mem_map_of_mem hold
    exfalso
    apply hne
    rcases huse with rfl | rfl
    · rfl
    · exact if_pos hkey
  · rw [hread] at ht
    cases ht
    exact he

/-- The least recently used policy, after any calls whose readings of the clock rise: the
cap holds, a new watch is let in, and a live key that is still wanted is still live. -/
theorem lru_guarantee (policy : InformerPolicy) (calls : List Call)
    (hclock : (calls.filterMap Call.reading).Pairwise (· < ·)) :
    let start := InformerManager.new policy
    (start.run calls).live ≤ policy.max_watches ∧
    (1 ≤ policy.max_watches → ∀ key now,
      ((start.run calls).register key now).2 = .Granted ∧
        key ∈ ((start.run calls).register key now).1.live_keys) ∧
    ∀ before last after key used_at, calls = before ++ last :: after → last.Uses key used_at →
      key ∈ (start.run (before ++ [last])).live_keys →
      Wanted (start.run (before ++ [last])) key used_at after →
      key ∈ (start.run calls).live_keys := by
  intro start
  refine ⟨?_, ?_, ?_⟩
  · have hcap : start.live ≤ start.policy.max_watches := Nat.zero_le _
    exact run_cap calls hcap
  · intro hcap key now
    apply register_grants
    rw [run_policy]
    exact hcap
  · rintro before last after key used_at rfl huse hlive ⟨hrelease, hlast, hidle, hfew⟩
    have hstep : start.run (before ++ [last]) = (start.run before).step last := by
      rw [run_append]
      rfl
    have hrun : start.run (before ++ last :: after) = (start.run (before ++ [last])).run after := by
      rw [← run_append, List.append_assoc]
      rfl
    have hread : last.reading = some used_at := by
      rcases huse with rfl | rfl <;> rfl
    rw [hstep] at hlive hlast hidle hfew hrun
    have he := used_entry huse hlive
    rw [hrun]
    apply List.mem_map.mpr
    refine ⟨_, @wanted_stays _ _ _ [] he ?_ hrelease hlast hidle hfew, rfl⟩
    -- every other entry is from before the last use
    intro d hd hne
    apply Or.inl
    rcases step_entries hd with ⟨hold, -⟩ | ⟨hused, -⟩
    · rcases run_entries hold with hstart | hearlier
      · cases hstart
      · rw [List.filterMap_append, List.pairwise_append] at hclock
        exact hclock.2.2 _ hearlier _ (List.mem_filterMap.mpr ⟨last, List.mem_cons_self, hread⟩)
    · exfalso
      apply hne
      rcases huse with rfl | rfl
      · exact (Option.some.inj hused).symm
      · simp only [InformerManager.uses] at hused
        split at hused
        · exact (Option.some.inj hused).symm
        · cases hused

/-- Two slots: a touched watch stays when a third view opens, and the other one goes. -/
theorem a_touched_watch_stays :
    let key : String → WatchKey := fun kind => ⟨"", "v1", kind, ""⟩
    let policy : InformerPolicy := { max_watches := 2, idle_ttl := 100 }
    let calls : List Call :=
      [.register (key "Pod") 1, .register (key "Node") 2, .touch (key "Pod") 3, .evict_idle 4,
        .register (key "Job") 5]
    key "Pod" ∈ ((InformerManager.new policy).run calls).live_keys ∧
      key "Node" ∉ ((InformerManager.new policy).run calls).live_keys := by
  intro key policy calls
  refine ⟨?_, by decide⟩
  apply (lru_guarantee policy calls (by decide)).2.2 [.register (key "Pod") 1,
    .register (key "Node") 2] (.touch (key "Pod") 3) [.evict_idle 4, .register (key "Job") 5]
    (key "Pod") 3 rfl (Or.inr rfl) (by decide)
  exact ⟨by decide, by decide, by decide, by decide⟩

end kaptein_core.informer
