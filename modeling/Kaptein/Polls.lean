-- An agent that asks again and again what changed (`what_changed_between` in `moat.rs`), each
-- time from the end of its last window on.
import Kaptein.EventMerge
import Kaptein.Lib.SortFilter
import Kaptein.LookBack

open rust_slice

namespace kaptein_core.events

section

variable (std : StableSort) {start since : Int}

/-- An event of a window is kept in the narrower one where it is late enough. -/
theorem keep_since (h : start ≤ since) {ts_ms : Option Int} {s : EventSummary}
    (hs : ∀ ts, ts_ms = some ts → s.last_timestamp_ms = ts) :
    (if keep ts_ms (some since) then some s else none) =
      (if keep ts_ms (some start) then some s else none).filter fun s =>
        since ≤ s.last_timestamp_ms := by
  cases ts_ms with
  | none => rfl
  | some ts =>
    have hlast := hs ts rfl
    by_cases hts : since ≤ ts
    · simp [keep, Option.filter, hlast, hts, Int.le_trans h hts]
    · by_cases hstart : start ≤ ts <;> simp [keep, Option.filter, hlast, hts, hstart]

theorem CoreEvent.kept_since (h : start ≤ since) (l : Listed CoreEvent) :
    CoreEvent.kept (some since) l =
      (CoreEvent.kept (some start) l).filter fun s => since ≤ s.last_timestamp_ms :=
  keep_since h fun ts hts => by simp [CoreEvent.summary, hts]

theorem V1Event.kept_since (h : start ≤ since) (l : Listed V1Event) :
    V1Event.kept (some since) l =
      (V1Event.kept (some start) l).filter fun s => since ≤ s.last_timestamp_ms :=
  keep_since h fun ts hts => by simp [V1Event.summary, hts]

theorem summaries_filter {α : Type} {kept narrow : Listed α → Option EventSummary}
    {p : EventSummary → Bool} (h : ∀ l, narrow l = (kept l).filter p)
    (answer : Except String (List (Listed α))) :
    summaries narrow answer = (summaries kept answer).filter p := by
  cases answer with
  | error e => rfl
  | ok list =>
    have hnarrow : narrow = fun l => (kept l).filter p := funext h
    simp only [summaries, hnarrow, List.filter_filterMap]

variable (core : Except String (List (Listed CoreEvent)))
  (v1 : Except String (List (Listed V1Event)))

theorem collected_since (h : start ≤ since) :
    collected core v1 (some since) =
      (collected core v1 (some start)).filter fun s => since ≤ s.last_timestamp_ms := by
  unfold collected
  rw [List.filter_append, summaries_filter (CoreEvent.kept_since h),
    summaries_filter (V1Event.kept_since h)]

/-- A later start leaves out the earlier events and changes nothing else: the time is part of
the key by which events are merged. -/
theorem recent_events_since (h : start ≤ since) :
    recent_events std core v1 (some since) =
      (recent_events std core v1 (some start)).filter fun s => since ≤ s.last_timestamp_ms := by
  unfold recent_events dedup
  rw [collected_since core v1 h, std.sort_filter, retain_first_filter]
  intro a b hkey
  have htime : a.last_timestamp_ms = b.last_timestamp_ms := by
    simp only [EventSummary.key, Prod.mk.injEq] at hkey
    exact hkey.2.2.2.2
  rw [htime]

theorem recent_events_descending (since_ms : Option Int) :
    (recent_events std core v1 since_ms).Pairwise fun a b =>
      b.last_timestamp_ms ≤ a.last_timestamp_ms := by
  refine List.Pairwise.sublist (retain_first_sublist _ _ _) ?_
  refine (std.sorted newest_first _).imp ?_
  intro a b hle
  exact Std.isLE_compare.mp hle

theorem le_of_mem_recent_events {s : EventSummary}
    (h : s ∈ recent_events std core v1 (some since)) : since ≤ s.last_timestamp_ms := by
  rw [recent_events_since std core v1 (Int.le_refl since)] at h
  simpa using (List.mem_filter.mp h).2

end

end kaptein_core.events

open kaptein_core.events

namespace kaptein_core.moat

section

variable (std : StableSort) (namespace_ : String)

/-- One call: how the cluster answers at its time, and the window that it asks for. -/
structure Poll where
  cluster : Cluster
  from_ms : Int64
  to_ms : Int64

/-- What the call answers. -/
def Poll.events (p : Poll) : List EventSummary :=
  (changes std p.cluster namespace_ p.from_ms p.to_ms).events

/-- A window ends no sooner than it starts, and the next one starts right behind its end. -/
def Adjoining : List Poll → Prop
  | [] => True
  | [p] => p.from_ms ≤ p.to_ms
  | p :: q :: polls =>
    p.from_ms ≤ p.to_ms ∧ q.from_ms.toInt = p.to_ms.toInt + 1 ∧ Adjoining (q :: polls)

/-- What the cluster says later of a time that was asked for, it said already at that call. -/
def NothingLate (start : Int64) (polls : List Poll) : Prop :=
  polls.Pairwise fun earlier later =>
    (changes std later.cluster namespace_ start earlier.to_ms).events ⊆
      (changes std earlier.cluster namespace_ start earlier.to_ms).events

end

section

variable {std : StableSort} {namespace_ : String}

/-- The agent tool and the command answer the window that they are asked for. -/
theorem what_changed_between_poll (p : Poll) (overflow_checks : Bool) (now_ms : Int64)
    (minutes : Option Int64) :
    (what_changed_between std p.cluster overflow_checks now_ms namespace_ (some p.from_ms)
      (some p.to_ms) minutes).map WhatChanged.events = some (p.events std namespace_) := rfl

theorem mem_changes {cluster : Cluster} {from_ms to_ms : Int64} {s : EventSummary} :
    s ∈ (changes std cluster namespace_ from_ms to_ms).events ↔
      s ∈ events_since std cluster (some namespace_) from_ms ∧
        s.last_timestamp_ms ≤ to_ms.toInt := by
  simp [changes]

theorem mem_events_since {cluster : Cluster} {start since : Int64} (h : start ≤ since)
    {s : EventSummary} :
    s ∈ events_since std cluster (some namespace_) since ↔
      s ∈ events_since std cluster (some namespace_) start ∧
        since.toInt ≤ s.last_timestamp_ms := by
  unfold events_since
  rw [recent_events_since std _ _ (Int64.le_iff_toInt_le.mp h)]
  simp

/-- An event of an answer lies in the window. -/
theorem mem_poll_events {p : Poll} {s : EventSummary} (h : s ∈ p.events std namespace_) :
    p.from_ms.toInt ≤ s.last_timestamp_ms ∧ s.last_timestamp_ms ≤ p.to_ms.toInt := by
  obtain ⟨hmem, hto⟩ := mem_changes.mp h
  exact ⟨le_of_mem_recent_events std _ _ hmem, hto⟩

/-- Two windows side by side are answered as the window of both. -/
theorem changes_append {cluster : Cluster} {from_ms mid next_ms to_ms : Int64}
    (hnext : next_ms.toInt = mid.toInt + 1) (hfrom : from_ms ≤ mid) (hto : mid ≤ to_ms) :
    (changes std cluster namespace_ next_ms to_ms).events ++
        (changes std cluster namespace_ from_ms mid).events =
      (changes std cluster namespace_ from_ms to_ms).events := by
  have hfrom' := Int64.le_iff_toInt_le.mp hfrom
  have hto' := Int64.le_iff_toInt_le.mp hto
  have hsince : events_since std cluster (some namespace_) next_ms =
      (events_since std cluster (some namespace_) from_ms).filter fun s =>
        next_ms.toInt ≤ s.last_timestamp_ms := by
    refine recent_events_since std _ _ ?_
    omega
  have hdesc : ((changes std cluster namespace_ from_ms to_ms).events).Pairwise fun a b =>
      b.last_timestamp_ms ≤ a.last_timestamp_ms :=
    (recent_events_descending std _ _ _).filter _
  have hsplit := filter_above_append EventSummary.last_timestamp_ms mid.toInt hdesc
  rw [← hsplit]
  simp only [changes, hsince, List.filter_filter]
  congr 1
  · refine List.filter_congr fun s _ => ?_
    rw [hnext, Bool.and_comm]
    rfl
  · refine List.filter_congr fun s _ => ?_
    simp only [← Bool.decide_and, decide_eq_decide]
    omega

/-! ## Any number of calls -/

theorem Adjoining.tail {p : Poll} {polls : List Poll} (h : Adjoining (p :: polls)) :
    Adjoining polls := by
  cases polls with
  | nil => trivial
  | cons q polls => exact h.2.2

theorem Adjoining.head {p : Poll} {polls : List Poll} (h : Adjoining (p :: polls)) :
    p.from_ms.toInt ≤ p.to_ms.toInt := by
  cases polls with
  | nil => exact Int64.le_iff_toInt_le.mp h
  | cons q polls => exact Int64.le_iff_toInt_le.mp h.1

/-- The windows follow each other. -/
theorem Adjoining.after {p : Poll} {polls : List Poll} (h : Adjoining (p :: polls)) :
    ∀ q ∈ polls, p.to_ms.toInt < q.from_ms.toInt ∧ p.to_ms.toInt < q.to_ms.toInt := by
  induction polls generalizing p with
  | nil =>
    intro q hq
    cases hq
  | cons q polls ih =>
    have hnext := h.2.1
    have hq := h.tail.head
    intro r hr
    rcases List.mem_cons.mp hr with rfl | hr
    · omega
    · have hlt := ih h.tail r hr
      omega

/-- No event is answered twice. -/
theorem keys_nodup {polls : List Poll} (h : Adjoining polls) :
    ((polls.flatMap fun p => p.events std namespace_).map EventSummary.key).Nodup := by
  induction polls with
  | nil => exact List.nodup_nil
  | cons p polls ih =>
    rw [List.flatMap_cons, List.map_append, List.nodup_append]
    refine ⟨?_, ih h.tail, ?_⟩
    · refine List.Nodup.sublist (List.Sublist.map _ List.filter_sublist) ?_
      exact retain_first_keys_nodup EventSummary.key [] _
    · intro k hk k' hk' heq
      subst heq
      obtain ⟨s, hs, rfl⟩ := List.mem_map.mp hk
      obtain ⟨t, ht, hkey⟩ := List.mem_map.mp hk'
      obtain ⟨q, hq, ht⟩ := List.mem_flatMap.mp ht
      have htime : t.last_timestamp_ms = s.last_timestamp_ms := by
        simp only [EventSummary.key, Prod.mk.injEq] at hkey
        exact hkey.2.2.2.2
      have hs' := (mem_poll_events hs).2
      have ht' := (mem_poll_events ht).1
      have hlt := (h.after q hq).1
      omega

/-- What a call over all the time would answer is answered by one of the calls up to it. -/
theorem answered_of_recorded {start : Int64} {p : Poll} {polls : List Poll}
    (h : Adjoining (p :: polls)) (hlate : NothingLate std namespace_ start (p :: polls))
    (hstart : start ≤ p.from_ms) {q : Poll} (hq : q ∈ p :: polls) {s : EventSummary}
    (hs : s ∈ (changes std q.cluster namespace_ start q.to_ms).events)
    (hfrom : p.from_ms.toInt ≤ s.last_timestamp_ms) :
    ∃ r ∈ p :: polls, s ∈ r.events std namespace_ := by
  induction polls generalizing p with
  | nil =>
    obtain rfl := List.mem_singleton.mp hq
    obtain ⟨hmem, hto⟩ := mem_changes.mp hs
    exact ⟨q, hq, mem_changes.mpr ⟨(mem_events_since hstart).mpr ⟨hmem, hfrom⟩, hto⟩⟩
  | cons next polls ih =>
    obtain ⟨hp, hnext, hrest⟩ := h
    obtain ⟨hearlier, hlate'⟩ := List.pairwise_cons.mp hlate
    obtain ⟨hmem, hto⟩ := mem_changes.mp hs
    by_cases htime : s.last_timestamp_ms ≤ p.to_ms.toInt
    · -- the window of `p`: what is said of it later was said then
      have hthen : s ∈ (changes std p.cluster namespace_ start p.to_ms).events := by
        rcases List.mem_cons.mp hq with rfl | hq
        · exact hs
        · exact hearlier q hq (mem_changes.mpr ⟨hmem, htime⟩)
      obtain ⟨hmem, hto⟩ := mem_changes.mp hthen
      exact ⟨p, List.mem_cons_self,
        mem_changes.mpr ⟨(mem_events_since hstart).mpr ⟨hmem, hfrom⟩, hto⟩⟩
    · have hq' : q ∈ next :: polls := by
        refine (List.mem_cons.mp hq).resolve_left ?_
        rintro rfl
        exact htime hto
      have hstart' : start ≤ next.from_ms := by
        have h1 := Int64.le_iff_toInt_le.mp hstart
        have h2 := Int64.le_iff_toInt_le.mp hp
        exact Int64.le_iff_toInt_le.mpr (by omega)
      obtain ⟨r, hr, hsr⟩ := ih hrest hlate' hstart' hq' (by omega)
      exact ⟨r, List.mem_cons_of_mem _ hr, hsr⟩

/-- In a cluster that stays as it is, the answers together are the answer over all the time. -/
theorem events_of_one_cluster {cluster : Cluster} {p : Poll} {polls : List Poll}
    (h : Adjoining (p :: polls)) (hcluster : ∀ q ∈ p :: polls, q.cluster = cluster) :
    (p :: polls).reverse.flatMap (fun q => q.events std namespace_) =
      (changes std cluster namespace_ p.from_ms
        ((p :: polls).getLast (List.cons_ne_nil _ _)).to_ms).events := by
  induction polls generalizing p with
  | nil =>
    have hp := hcluster p List.mem_cons_self
    simp [Poll.events, hp]
  | cons next polls ih =>
    have hafter := h.after
    obtain ⟨hp, hnext, hrest⟩ := h
    have hp' := hcluster p List.mem_cons_self
    have hlast : p.to_ms ≤ ((next :: polls).getLast (List.cons_ne_nil _ _)).to_ms :=
      Int64.le_iff_toInt_le.mpr (Int.le_of_lt (hafter _ (List.getLast_mem _)).2)
    rw [List.reverse_cons, List.flatMap_append,
      ih hrest fun q hq => hcluster q (List.mem_cons_of_mem _ hq), List.flatMap_singleton]
    show _ ++ (changes std p.cluster namespace_ p.from_ms p.to_ms).events = _
    rw [hp', changes_append hnext hp hlast]
    rfl

/-- A pull of an image that failed at 1000, and a restart at 9000. -/
def two_events : Cluster where
  core_events := fun _ => .ok [
    { event := { reason := some "Failed", last_timestamp := some 1000 }, now_ms := 9500 },
    { event := { reason := some "BackOff", last_timestamp := some 9000 }, now_ms := 9500 }]
  v1_events := fun _ => .error "not served"
  pod := fun _ _ => .error "not found"

end

end kaptein_core.moat
