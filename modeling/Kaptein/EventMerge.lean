-- How often a stored event stands in the merged answer (`events.rs`). Both APIs are
-- views of one storage, and the summaries are told apart by a key of five fields.
import Mathlib.Data.List.Forall2
import Mathlib.Data.List.Nodup
import Mathlib.Data.List.Pairwise
import Kaptein.Events

open rust_slice
open scoped List

namespace kaptein_core.events

/-! ## Stored events -/

/-- A stored event, as the list of `core/v1`, the list of `events.k8s.io/v1`, or both
return it. -/
inductive Stored where
  | Core (l : Listed CoreEvent)
  | V1 (l : Listed V1Event)
  | Both (core : Listed CoreEvent) (v1 : Listed V1Event)

def Stored.core : Stored → Option (Listed CoreEvent)
  | .Core l => some l
  | .V1 _ => none
  | .Both l _ => some l

def Stored.v1 : Stored → Option (Listed V1Event)
  | .Core _ => none
  | .V1 l => some l
  | .Both _ l => some l

/-- The summary of a view without a window. -/
def CoreEvent.rendered (l : Listed CoreEvent) : EventSummary :=
  l.event.summary l.event.last_timestamp l.now_ms

def V1Event.rendered (l : Listed V1Event) : EventSummary := l.event.summary l.event.ts_ms l.now_ms

def Stored.renderings : Stored → List EventSummary
  | .Core l => [CoreEvent.rendered l]
  | .V1 l => [V1Event.rendered l]
  | .Both core v1 => [CoreEvent.rendered core, V1Event.rendered v1]

/-- The view that comes first. -/
def Stored.shown : Stored → EventSummary
  | .Core l => CoreEvent.rendered l
  | .V1 l => V1Event.rendered l
  | .Both core _ => CoreEvent.rendered core

/-- One of the renderings, with a message when there is one. -/
def Summarises (e : Stored) (s : EventSummary) : Prop :=
  s ∈ e.renderings ∧ ((∃ r ∈ e.renderings, r.message ≠ "") → s.message ≠ "")

variable (std : StableSort)

/-- Whatever the order of the lists, the answer without a window has one summary for each
stored event. -/
def MergedOnce (stored : List Stored) : Prop :=
  ∀ core v1, core ~ stored.filterMap Stored.core → v1 ~ stored.filterMap Stored.v1 →
    ∃ picks, recent_events std (.ok core) (.ok v1) none ~ picks ∧
      List.Forall₂ Summarises stored picks

/-- The key tells the stored events apart, and nothing more. -/
structure Keyed (stored : List Stored) : Prop where
  one_key : ∀ e ∈ stored, ∀ r ∈ e.renderings, ∀ r' ∈ e.renderings, r.key = r'.key
  apart : stored.Pairwise fun e e' => ∀ r ∈ e.renderings, ∀ r' ∈ e'.renderings, r.key ≠ r'.key

/-- When an event has a message, the view of `core/v1` has one, or is missing. -/
def MessageFirst (stored : List Stored) : Prop :=
  ∀ e ∈ stored, (∃ r ∈ e.renderings, r.message ≠ "") → e.shown.message ≠ ""

/-! ## The summaries before the merge -/

theorem Stored.shown_mem (e : Stored) : e.shown ∈ e.renderings := by
  cases e <;> exact List.mem_cons_self

theorem Stored.renderings_eq (e : Stored) : e.renderings =
    e.core.toList.map CoreEvent.rendered ++ e.v1.toList.map V1Event.rendered := by
  cases e <;> rfl

theorem Stored.head?_renderings (e : Stored) : e.renderings.head? = some e.shown := by
  cases e <;> rfl

theorem collected_none (core : List (Listed CoreEvent)) (v1 : List (Listed V1Event)) :
    collected (.ok core) (.ok v1) none =
      core.map CoreEvent.rendered ++ v1.map V1Event.rendered := by
  have hcore : CoreEvent.kept none = fun l => some (CoreEvent.rendered l) := by
    funext l
    simp [CoreEvent.kept, keep, CoreEvent.rendered]
  have hv1 : V1Event.kept none = fun l => some (V1Event.rendered l) := by
    funext l
    simp [V1Event.kept, keep, V1Event.rendered]
  simp only [collected, summaries, hcore, hv1, List.filterMap_eq_map']

section

variable {std} {stored : List Stored} {core : List (Listed CoreEvent)} {v1 : List (Listed V1Event)}

theorem mem_collected_none (hcore : core ~ stored.filterMap Stored.core)
    (hv1 : v1 ~ stored.filterMap Stored.v1) (s : EventSummary) :
    s ∈ collected (.ok core) (.ok v1) none ↔ ∃ e ∈ stored, s ∈ e.renderings := by
  rw [collected_none, List.mem_append, List.mem_map, List.mem_map]
  simp only [hcore.mem_iff, hv1.mem_iff, List.mem_filterMap, Stored.renderings_eq, List.mem_append,
    List.mem_map, Option.mem_toList]
  constructor
  · rintro (⟨l, ⟨e, he, hl⟩, hs⟩ | ⟨l, ⟨e, he, hl⟩, hs⟩)
    · exact ⟨e, he, .inl ⟨l, hl, hs⟩⟩
    · exact ⟨e, he, .inr ⟨l, hl, hs⟩⟩
  · rintro ⟨e, he, ⟨l, hl, hs⟩ | ⟨l, hl, hs⟩⟩
    · exact .inl ⟨l, ⟨e, he, hl⟩, hs⟩
    · exact .inr ⟨l, ⟨e, he, hl⟩, hs⟩

/-- The views of one list that have the key of a stored event are its own view. -/
theorem filter_views {α : Type} {view : Stored → Option (Listed α)}
    {render : Listed α → EventSummary}
    (hviews : ∀ e l, view e = some l → render l ∈ e.renderings) (hkeyed : Keyed stored)
    {e : Stored} (he : e ∈ stored) {views : List (Listed α)} (hp : views ~ stored.filterMap view) :
    (views.map render).filter (fun s => s.key = e.shown.key) = (view e).toList.map render := by
  have hother : ∀ others : List Stored,
      (∀ o ∈ others, ∀ r ∈ o.renderings, r.key ≠ e.shown.key) →
      ((others.filterMap view).map render).filter (fun s => s.key = e.shown.key) = [] := by
    intro others hne
    rw [List.filter_eq_nil_iff]
    intro s hs
    obtain ⟨l, hl, rfl⟩ := List.mem_map.mp hs
    obtain ⟨o, ho, hview⟩ := List.mem_filterMap.mp hl
    simpa using hne o ho _ (hviews o l hview)
  have hown : ((view e).toList.map render).filter (fun s => s.key = e.shown.key) =
      (view e).toList.map render := by
    rw [List.filter_eq_self]
    intro s hs
    obtain ⟨l, hl, rfl⟩ := List.mem_map.mp hs
    simpa using hkeyed.one_key e he _ (hviews e l (Option.mem_toList.mp hl)) _ e.shown_mem
  have hstored : ((stored.filterMap view).map render).filter (fun s => s.key = e.shown.key) =
      (view e).toList.map render := by
    obtain ⟨before, after, rfl⟩ := List.append_of_mem he
    obtain ⟨_, hafter, hbefore⟩ := List.pairwise_append.mp hkeyed.apart
    have hnone_before := hother before fun o ho r hr =>
      hbefore o ho e List.mem_cons_self r hr _ e.shown_mem
    have hnone_after := hother after fun o ho r hr =>
      Ne.symm ((List.pairwise_cons.mp hafter).1 o ho _ e.shown_mem r hr)
    have hcons : (e :: after).filterMap view = (view e).toList ++ after.filterMap view := by
      cases hv : view e <;> simp [hv]
    rw [List.filterMap_append, hcons, List.map_append, List.map_append, List.filter_append,
      List.filter_append, hnone_before, hnone_after, hown, List.nil_append, List.append_nil]
  have hperm := ((hp.map render).filter fun s => s.key = e.shown.key)
  rw [hstored] at hperm
  cases hv : view e with
  | none =>
    rw [hv] at hperm
    exact List.perm_nil.mp hperm
  | some l =>
    rw [hv] at hperm
    exact List.perm_singleton.mp hperm

theorem filter_collected (hkeyed : Keyed stored) (hcore : core ~ stored.filterMap Stored.core)
    (hv1 : v1 ~ stored.filterMap Stored.v1) {e : Stored} (he : e ∈ stored) :
    (collected (.ok core) (.ok v1) none).filter (fun s => s.key = e.shown.key) = e.renderings := by
  have hcore_view : ∀ (e : Stored) l, e.core = some l → CoreEvent.rendered l ∈ e.renderings := by
    intro e l hl
    rw [Stored.renderings_eq, hl]
    exact List.mem_append_left _ (List.mem_singleton_self _)
  have hv1_view : ∀ (e : Stored) l, e.v1 = some l → V1Event.rendered l ∈ e.renderings := by
    intro e l hl
    rw [Stored.renderings_eq, hl]
    exact List.mem_append_right _ (List.mem_singleton_self _)
  rw [collected_none, List.filter_append, filter_views hcore_view hkeyed he hcore,
    filter_views hv1_view hkeyed he hv1, ← Stored.renderings_eq]

/-! ## The sort -/

instance : Std.TransCmp newest_first where
  eq_swap {a b} := by
    unfold newest_first
    exact Std.OrientedCmp.eq_swap
  isLE_trans {a b c} hab hbc := by
    unfold newest_first at hab hbc ⊢
    exact Std.TransCmp.isLE_trans hbc hab

/-- Views with one time keep their order in the sort. -/
theorem filter_sorted {summaries : List EventSummary} {k : EventKey} {e : Stored}
    (hkeys : ∀ r ∈ e.renderings, r.key = k)
    (h : summaries.filter (fun s => s.key = k) = e.renderings) :
    (std.sort_by newest_first summaries).filter (fun s => s.key = k) = e.renderings := by
  have hperm := (std.perm newest_first summaries).filter fun s => s.key = k
  rw [h] at hperm
  cases e with
  | Core l => exact List.perm_singleton.mp hperm
  | V1 l => exact List.perm_singleton.mp hperm
  | Both c v =>
    have htime : newest_first (CoreEvent.rendered c) (V1Event.rendered v) = .eq := by
      have hc := hkeys _ List.mem_cons_self
      have hv := hkeys (V1Event.rendered v) (List.mem_cons_of_mem _ (List.mem_singleton_self _))
      have heq :
          (CoreEvent.rendered c).last_timestamp_ms = (V1Event.rendered v).last_timestamp_ms :=
        congrArg (fun key : EventKey => key.2.2.2.2) (hc.trans hv.symm)
      rw [newest_first, heq]
      exact Std.ReflCmp.compare_self
    have hpair : [CoreEvent.rendered c, V1Event.rendered v] <+ summaries := by
      have hsub := List.filter_sublist (l := summaries) (p := fun s => decide (s.key = k))
      rw [h] at hsub
      exact hsub
    have hsorted := std.stable newest_first summaries _ _ (by rw [htime]; rfl) hpair
    have hfiltered := hsorted.filter fun s => s.key = k
    have hself : [CoreEvent.rendered c, V1Event.rendered v].filter (fun s => s.key = k) =
        [CoreEvent.rendered c, V1Event.rendered v] := by
      rw [List.filter_eq_self]
      intro s hs
      simpa using hkeys s hs
    rw [hself] at hfiltered
    exact (hfiltered.eq_of_length hperm.length_eq.symm).symm

/-! ## One summary for each stored event -/

theorem mem_recent_events_iff (hkeyed : Keyed stored) (hcore : core ~ stored.filterMap Stored.core)
    (hv1 : v1 ~ stored.filterMap Stored.v1) (s : EventSummary) :
    s ∈ recent_events std (.ok core) (.ok v1) none ↔ s ∈ stored.map Stored.shown := by
  have hfind : ∀ e ∈ stored, (std.sort_by newest_first (collected (.ok core) (.ok v1) none)).find?
      (fun r => r.key = e.shown.key) = some e.shown := by
    intro e he
    have hkeys : ∀ r ∈ e.renderings, r.key = e.shown.key :=
      fun r hr => hkeyed.one_key e he r hr _ e.shown_mem
    rw [← List.head?_filter, filter_sorted hkeys (filter_collected hkeyed hcore hv1 he),
      e.head?_renderings]
  unfold recent_events dedup
  rw [mem_retain_first, List.mem_map]
  constructor
  · rintro ⟨_, hs⟩
    have hmem := (std.perm _ _).subset (List.mem_of_find?_eq_some hs)
    obtain ⟨e, he, hr⟩ := (mem_collected_none hcore hv1 s).mp hmem
    have hkey : s.key = e.shown.key := hkeyed.one_key e he s hr _ e.shown_mem
    rw [hkey, hfind e he, Option.some.injEq] at hs
    exact ⟨e, he, hs⟩
  · rintro ⟨e, he, rfl⟩
    exact ⟨List.not_mem_nil, hfind e he⟩

/-- When the key tells the stored events apart, the answer shows the first view of each. -/
theorem recent_events_perm (hkeyed : Keyed stored) (hcore : core ~ stored.filterMap Stored.core)
    (hv1 : v1 ~ stored.filterMap Stored.v1) :
    recent_events std (.ok core) (.ok v1) none ~ stored.map Stored.shown := by
  have hanswer : (recent_events std (.ok core) (.ok v1) none).Nodup :=
    (retain_first_keys_nodup EventSummary.key _ _).of_map
  have hshown : (stored.map Stored.shown).Nodup := by
    rw [List.Nodup, List.pairwise_map]
    apply hkeyed.apart.imp
    intro e e' hne heq
    exact hne _ e.shown_mem _ e'.shown_mem (congrArg EventSummary.key heq)
  rw [List.perm_ext_iff_of_nodup hanswer hshown]
  exact mem_recent_events_iff hkeyed hcore hv1

theorem mergedOnce_of_keyed (hkeyed : Keyed stored) (hmessage : MessageFirst stored) :
    MergedOnce std stored := by
  intro core v1 hcore hv1
  refine ⟨stored.map Stored.shown, recent_events_perm hkeyed hcore hv1, ?_⟩
  rw [List.forall₂_map_right_iff, List.forall₂_same]
  exact fun e he => ⟨e.shown_mem, hmessage e he⟩

/-! ## The other direction -/

theorem length_of_mergedOnce (h : MergedOnce std stored)
    (hcore : core ~ stored.filterMap Stored.core) (hv1 : v1 ~ stored.filterMap Stored.v1) :
    (recent_events std (.ok core) (.ok v1) none).length = stored.length := by
  obtain ⟨picks, hperm, hpicks⟩ := h core v1 hcore hv1
  rw [hperm.length_eq, hpicks.length_eq]

/-- A stored event that is merged once on its own has one key. -/
theorem one_key_of_mergedOnce {e : Stored} (h : MergedOnce std [e]) :
    ∀ r ∈ e.renderings, ∀ r' ∈ e.renderings, r.key = r'.key := by
  have hlength := length_of_mergedOnce h (List.Perm.refl _) (List.Perm.refl _)
  obtain ⟨s, hs⟩ := List.length_eq_one_iff.mp hlength
  have hkey : ∀ r ∈ e.renderings, r.key = s.key := by
    intro r hr
    have hmem := (mem_collected_none (List.Perm.refl _) (List.Perm.refl _) r).mpr
      ⟨e, List.mem_singleton_self e, hr⟩
    have hkeys := key_mem_recent_events std hmem
    rw [hs] at hkeys
    simpa using hkeys
  intro r hr r' hr'
  rw [hkey r hr, hkey r' hr']

theorem keyed_singleton {e : Stored} (h : MergedOnce std [e]) : Keyed [e] where
  one_key := by
    intro e' he'
    rw [List.mem_singleton] at he'
    subst he'
    exact one_key_of_mergedOnce h
  apart := List.pairwise_singleton _ _

theorem messageFirst_of_mergedOnce {e : Stored} (h : MergedOnce std [e]) :
    (∃ r ∈ e.renderings, r.message ≠ "") → e.shown.message ≠ "" := by
  obtain ⟨picks, hperm, hpicks⟩ := h _ _ (List.Perm.refl _) (List.Perm.refl _)
  have hshown := @recent_events_perm std [e] _ _ (keyed_singleton h) (List.Perm.refl _)
    (List.Perm.refl _)
  have hone : picks = [e.shown] := List.perm_singleton.mp (hperm.symm.trans hshown)
  rw [hone] at hpicks
  cases hpicks with
  | cons hsummary _ => exact hsummary.2

/-- Two stored events that are merged once together have different keys. -/
theorem apart_of_mergedOnce {e e' : Stored} (h : MergedOnce std [e, e']) (he : MergedOnce std [e])
    (he' : MergedOnce std [e']) : ∀ r ∈ e.renderings, ∀ r' ∈ e'.renderings, r.key ≠ r'.key := by
  intro r hr r' hr' heq
  have hlength := length_of_mergedOnce h (List.Perm.refl _) (List.Perm.refl _)
  have hnodup := retain_first_keys_nodup EventSummary.key []
    (std.sort_by newest_first (collected (.ok ([e, e'].filterMap Stored.core))
      (.ok ([e, e'].filterMap Stored.v1)) none))
  have hsame : ∀ s ∈ recent_events std (.ok ([e, e'].filterMap Stored.core))
      (.ok ([e, e'].filterMap Stored.v1)) none, s.key = r.key := by
    intro s hs
    obtain ⟨o, ho, hmem⟩ :=
      (mem_collected_none (List.Perm.refl _) (List.Perm.refl _) s).mp (mem_collected_of_mem std hs)
    rcases List.mem_cons.mp ho with rfl | ho
    · exact one_key_of_mergedOnce he s hmem r hr
    · rw [List.mem_singleton] at ho
      subst ho
      rw [heq]
      exact one_key_of_mergedOnce he' s hmem r' hr'
  obtain ⟨a, b, hab⟩ := List.length_eq_two.mp hlength
  have hkeys : a.key = b.key := by
    rw [hsame a (by rw [hab]; simp), hsame b (by rw [hab]; simp)]
  have hnodup' : ((recent_events std (.ok ([e, e'].filterMap Stored.core))
      (.ok ([e, e'].filterMap Stored.v1)) none).map EventSummary.key).Nodup := hnodup
  rw [hab] at hnodup'
  simp [hkeys] at hnodup'

theorem Keyed.sublist {part : List Stored} (h : Keyed stored) (hsub : part <+ stored) :
    Keyed part where
  one_key e he := h.one_key e (hsub.subset he)
  apart := h.apart.sublist hsub

end

/-- Every selection of the stored events is merged exactly once if and only if the key tells
the stored events apart, the views of one event have one key, and no message of
`events.k8s.io/v1` stands beside an empty one of `core/v1`. -/
theorem events_are_merged_once_iff (stored : List Stored) :
    (∀ part, part <+ stored → MergedOnce std part) ↔ Keyed stored ∧ MessageFirst stored := by
  constructor
  · intro h
    have hone : ∀ e ∈ stored, MergedOnce std [e] :=
      fun e he => h [e] (List.singleton_sublist.mpr he)
    refine ⟨⟨fun e he => one_key_of_mergedOnce (hone e he), ?_⟩, ?_⟩
    · rw [List.pairwise_iff_forall_sublist]
      intro e e' hsub
      exact apart_of_mergedOnce (h _ hsub) (hone e (hsub.subset (by simp)))
        (hone e' (hsub.subset (by simp)))
    · exact fun e he => messageFirst_of_mergedOnce (hone e he)
  · rintro ⟨hkeyed, hmessage⟩ part hsub
    exact mergedOnce_of_keyed (hkeyed.sublist hsub) fun e he => hmessage e (hsub.subset he)

/-- One crash loop in both lists. The legacy view has the time of the last occurrence, the
modern one that of the first. -/
def crash_loop_twice : Stored :=
  .Both ⟨{ reason := some "BackOff", last_timestamp := some 9000 }, 9500⟩ crash_loop

theorem a_crash_loop_is_counted_twice : ¬MergedOnce mergeSort [crash_loop_twice] := by
  intro h
  have hkey := one_key_of_mergedOnce h _ List.mem_cons_self _
    (List.mem_cons_of_mem _ List.mem_cons_self)
  revert hkey
  decide

end kaptein_core.events
