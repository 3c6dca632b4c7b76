-- The bounded watch of the informer store (`watch_from_until` in `store.rs`): it
-- returns after a number of watch items. The items are counted, whatever they are.
import Kaptein.Lib.Streams
import Kaptein.Store

open kube kaptein_core.discovery streams

namespace kaptein_core.store

/-- The answer to a watch: a stream, or an error and the version of the list that is
asked for then, if there is one. -/
inductive WatchAnswer where
  | Stream (items : List (Except String WatchEvent))
  | Refused (relisted : Option String)

/-- The variables of the loop. -/
structure Watching where
  informer : InformerStore
  current_rv : String
  backoff_ms : Nat
  applied : Nat

def Watching.back_off (w : Watching) : Watching :=
  { w with backoff_ms := min (w.backoff_ms * 2) 5000 }

section

variable (gvk : GroupVersionKind) (max_events : Nat)

/-- The inner loop over one stream, and whether it returns from the function. -/
def read_stream : List (Except String WatchEvent) → Watching → Watching × Bool
  | .ok ev :: rest, w =>
    let w := { w with
      backoff_ms := 100, informer := w.informer.apply ev gvk, applied := w.applied + 1 }
    if max_events ≤ w.applied then (w, true) else read_stream rest w
  | .error _ :: _, w | [], w => (w, false)

/-- The outer loop. An answer depends on the version that the watch starts from, and where
the answers end the loop still waits for the next one. -/
def watch_loop : List (String → WatchAnswer) → Watching → Option InformerStore
  | [], w => if w.applied < max_events then none else some w.informer
  | answer :: answers, w =>
    if w.applied < max_events then
      match answer w.current_rv with
      | .Refused relisted =>
        watch_loop answers { w.back_off with current_rv := relisted.getD w.current_rv }
      | .Stream items =>
        match read_stream gvk max_events items w with
        | (w, true) => some w.informer
        | (w, false) => watch_loop answers w.back_off
    else some w.informer

def watch_from_until (store : InformerStore) (resource_version : String)
    (answers : List (String → WatchAnswer)) : Option InformerStore :=
  watch_loop gvk max_events answers
    { informer := store, current_rv := resource_version, backoff_ms := 100, applied := 0 }

end

/-! ## The items of a watch -/

/-- The items that the watches deliver, one stream after another. -/
def watch_items : List (String → WatchAnswer) → String → List WatchEvent
  | [], _ => []
  | answer :: answers, rv =>
    match answer rv with
    | .Refused relisted => watch_items answers (relisted.getD rv)
    | .Stream items => delivered items ++ watch_items answers rv

/-- A change of the store. -/
def Changes (ev : WatchEvent) : Prop := ev.object.isSome

instance (ev : WatchEvent) : Decidable (Changes ev) :=
  inferInstanceAs (Decidable (ev.object.isSome = true))

def InformerStore.apply_all (s : InformerStore) (gvk : GroupVersionKind)
    (evs : List WatchEvent) : InformerStore :=
  evs.foldl (fun t ev => t.apply ev gvk) s

variable {gvk : GroupVersionKind}

theorem apply_all_append (s : InformerStore) (xs ys : List WatchEvent) :
    s.apply_all gvk (xs ++ ys) = (s.apply_all gvk xs).apply_all gvk ys :=
  List.foldl_append

theorem apply_revision (s : InformerStore) (ev : WatchEvent) :
    (s.apply ev gvk).revision = s.revision + if Changes ev then 1 else 0 := by
  cases ev <;> rfl

/-- The revision counts the changes. -/
theorem apply_all_revision (s : InformerStore) (evs : List WatchEvent) :
    (s.apply_all gvk evs).revision = s.revision + evs.countP (Changes ·) := by
  unfold InformerStore.apply_all
  induction evs generalizing s with
  | nil => rfl
  | cons ev evs ih =>
    rw [List.foldl_cons, ih, apply_revision, List.countP_cons]
    simp only [decide_eq_true_eq]
    omega

/-- One stream: its items up to the number that is left, and whether they were enough. -/
theorem read_stream_spec {max_events : Nat} {items : List (Except String WatchEvent)}
    {w : Watching} (h : w.applied < max_events) :
    (read_stream gvk max_events items w).1.informer =
        w.informer.apply_all gvk ((delivered items).take (max_events - w.applied)) ∧
      (read_stream gvk max_events items w).1.applied =
        w.applied + min (max_events - w.applied) (delivered items).length ∧
      (read_stream gvk max_events items w).1.current_rv = w.current_rv ∧
      (read_stream gvk max_events items w).2 =
        decide (max_events - w.applied ≤ (delivered items).length) := by
  have hleft : ¬ max_events - w.applied ≤ 0 := by omega
  induction items generalizing w with
  | nil => simp [read_stream, InformerStore.apply_all, hleft]
  | cons item rest ih =>
    cases item with
    | error e => simp [read_stream, InformerStore.apply_all, hleft]
    | ok ev =>
      obtain ⟨n, hn⟩ : ∃ n, max_events - w.applied = n + 1 :=
        ⟨max_events - w.applied - 1, by omega⟩
      unfold read_stream
      simp only [delivered_ok, hn, List.take_succ_cons, List.length_cons]
      by_cases hfull : max_events ≤ w.applied + 1
      · have hzero : n = 0 := by omega
        subst hzero
        rw [if_pos hfull]
        refine ⟨by simp [InformerStore.apply_all], ?_, rfl, by simp⟩
        simp only
        omega
      · rw [if_neg hfull]
        have hn' : max_events - (w.applied + 1) = n := by omega
        obtain ⟨hinformer, happlied, hrv, hdone⟩ := ih (w := { w with
          backoff_ms := 100, informer := w.informer.apply ev gvk, applied := w.applied + 1 })
          (by simp only; omega) (by simp only; omega)
        simp only [hn'] at hinformer happlied hrv hdone
        refine ⟨hinformer, ?_, hrv, ?_⟩
        · rw [happlied]
          omega
        · rw [hdone]
          simp

/-- The loop returns where the watches deliver enough items, and has then applied the
first ones. -/
theorem watch_loop_eq {max_events : Nat} {answers : List (String → WatchAnswer)} {w : Watching}
    (h : w.applied ≤ max_events) :
    watch_loop gvk max_events answers w =
      if max_events - w.applied ≤ (watch_items answers w.current_rv).length then
        some (w.informer.apply_all gvk
          ((watch_items answers w.current_rv).take (max_events - w.applied)))
      else none := by
  rcases Nat.eq_or_lt_of_le h with hfull | hopen
  · have hnot : ¬ w.applied < max_events := by omega
    have hleft : max_events - w.applied = 0 := by omega
    rw [hleft, if_pos (Nat.zero_le _)]
    cases answers with
    | nil =>
      unfold watch_loop
      rw [if_neg hnot]
      rfl
    | cons answer answers =>
      unfold watch_loop
      rw [if_neg hnot]
      rfl
  · induction answers generalizing w with
    | nil =>
      unfold watch_loop watch_items
      rw [if_pos hopen, List.length_nil, if_neg (by omega)]
    | cons answer answers ih =>
      unfold watch_loop watch_items
      rw [if_pos hopen]
      cases answer w.current_rv with
      | Refused relisted => exact ih (Nat.le_of_lt hopen) hopen
      | Stream items =>
        obtain ⟨hinformer, happlied, hrv, hdone⟩ := @read_stream_spec gvk max_events items w hopen
        simp only [List.length_append]
        cases hread : read_stream gvk max_events items w with
        | mk v returned =>
          rw [hread] at hinformer happlied hrv hdone
          simp only at hinformer happlied hrv hdone
          by_cases henough : max_events - w.applied ≤ (delivered items).length
          · rw [decide_eq_true henough] at hdone
            subst hdone
            rw [if_pos (by omega), List.take_append_of_le_length henough, ← hinformer]
          · rw [decide_eq_false henough] at hdone
            subst hdone
            have hleft : max_events - v.applied =
                max_events - w.applied - (delivered items).length := by omega
            have hlater : watch_loop gvk max_events answers v.back_off =
                if max_events - v.applied ≤ (watch_items answers v.current_rv).length then
                  some (v.informer.apply_all gvk
                    ((watch_items answers v.current_rv).take (max_events - v.applied)))
                else none :=
              ih (w := v.back_off) (by change v.applied ≤ max_events; omega)
                (by change v.applied < max_events; omega)
            rw [List.take_of_length_le (by omega)] at hinformer
            rw [hleft, hinformer, hrv] at hlater
            rw [List.take_append, List.take_of_length_le (by omega), apply_all_append]
            refine hlater.trans ?_
            have hiff : max_events - w.applied - (delivered items).length ≤
                (watch_items answers w.current_rv).length ↔
                max_events - w.applied ≤ (delivered items).length +
                  (watch_items answers w.current_rv).length := by omega
            simp only [hiff]

theorem watch_from_until_eq (max_events : Nat) (store : InformerStore) (resource_version : String)
    (answers : List (String → WatchAnswer)) :
    watch_from_until gvk max_events store resource_version answers =
      if max_events ≤ (watch_items answers resource_version).length then
        some (store.apply_all gvk ((watch_items answers resource_version).take max_events))
      else none :=
  watch_loop_eq (Nat.zero_le _)

/-- A bounded watch that returns has moved the revision on by its limit exactly when each of
the items that it has counted is a change. -/
theorem bounded_watch_counts_changes_iff (gvk : GroupVersionKind) (max_events : Nat)
    (store : InformerStore) (resource_version : String) (answers : List (String → WatchAnswer))
    {t : InformerStore}
    (ht : watch_from_until gvk max_events store resource_version answers = some t) :
    t.revision = store.revision + max_events ↔
      ∀ ev ∈ (watch_items answers resource_version).take max_events, Changes ev := by
  rw [watch_from_until_eq] at ht
  by_cases henough : max_events ≤ (watch_items answers resource_version).length
  · rw [if_pos henough] at ht
    cases ht
    have hall := List.countP_eq_length (p := fun ev => decide (Changes ev))
      (l := (watch_items answers resource_version).take max_events)
    rw [List.length_take_of_le henough] at hall
    rw [apply_all_revision, Nat.add_left_cancel_iff, hall]
    simp only [decide_eq_true_eq]
  · rw [if_neg henough] at ht
    cases ht

/-- A store with one config map. -/
def one_seeded : InformerStore :=
  InformerStore.new.seed_pages ⟨"", "v1", "ConfigMap"⟩ [[bare_object "a"]]

/-- A change behind a refused watch, and a bookmark that is not counted any more. -/
theorem a_change_moves_the_revision :
    (one_seeded.apply (.Deleted (bare_object "a")) ⟨"", "v1", "ConfigMap"⟩).revision =
      one_seeded.revision + 1 := by
  refine (bounded_watch_counts_changes_iff ⟨"", "v1", "ConfigMap"⟩ 1 one_seeded "7"
    [fun _ => .Refused (some "9"),
      fun _ => .Stream [.ok (.Deleted (bare_object "a")), .ok .Bookmark]] rfl).mpr ?_
  intro ev hev
  rw [List.mem_singleton.mp hev]
  rfl

/-- A watch for one change returns at a bookmark, with nothing applied. -/
theorem a_bookmark_uses_up_the_limit :
    ¬ ∀ t, watch_from_until ⟨"", "v1", "ConfigMap"⟩ 1 one_seeded "7"
        [fun _ => .Stream [.ok .Bookmark, .ok (.Deleted (bare_object "a"))]] = some t →
      t.revision = one_seeded.revision + 1 := by
  intro h
  have hrevision := h one_seeded rfl
  omega

end kaptein_core.store
