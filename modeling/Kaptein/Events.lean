-- Recent activity (`events.rs`): the events of both APIs within a window of time,
-- in one list with the newest first. A time stands for its `as_millisecond`.
import Kaptein.Lib.FirstByKey
import Kaptein.Lib.StableSort

open rust_slice

namespace kaptein_core.events

structure EventSummary where
  namespace_ : String
  kind : String
  name : String
  type_ : String
  reason : String
  message : String
  count : Int
  last_timestamp_ms : Int
  deriving DecidableEq

structure ObjectReference where
  kind : Option String := none
  name : Option String := none

/-- An event of `core/v1`. -/
structure CoreEvent where
  namespace_ : Option String := none
  involved_object : ObjectReference := {}
  type_ : Option String := none
  reason : Option String := none
  message : Option String := none
  count : Option Int := none
  last_timestamp : Option Int := none

structure EventSeries where
  count : Int
  last_observed_time : Int

/-- An event of `events.k8s.io/v1`. -/
structure V1Event where
  namespace_ : Option String := none
  regarding : Option ObjectReference := none
  type_ : Option String := none
  reason : Option String := none
  note : Option String := none
  event_time : Option Int := none
  series : Option EventSeries := none
  deprecated_count : Option Int := none
  deprecated_last_timestamp : Option Int := none

/-- An event without a time is in no window. -/
def keep (ts_ms since_ms : Option Int) : Bool :=
  match ts_ms, since_ms with
  | some ts, some since => decide (since ≤ ts)
  | _, none => true
  | _, _ => false

def V1Event.ts_ms (e : V1Event) : Option Int :=
  (e.event_time.or (e.series.map EventSeries.last_observed_time)).or e.deprecated_last_timestamp

/-- The summary with the time `ts_ms`, or with the time of the clock. -/
def CoreEvent.summary (e : CoreEvent) (ts_ms : Option Int) (now_ms : Int) : EventSummary where
  namespace_ := e.namespace_.getD ""
  kind := e.involved_object.kind.getD ""
  name := e.involved_object.name.getD ""
  type_ := e.type_.getD "Normal"
  reason := e.reason.getD ""
  message := e.message.getD ""
  count := e.count.getD 0
  last_timestamp_ms := ts_ms.getD now_ms

def V1Event.summary (e : V1Event) (ts_ms : Option Int) (now_ms : Int) : EventSummary where
  namespace_ := e.namespace_.getD ""
  kind := (e.regarding.bind ObjectReference.kind).getD ""
  name := (e.regarding.bind ObjectReference.name).getD ""
  type_ := e.type_.getD "Normal"
  reason := e.reason.getD ""
  message := e.note.getD ""
  count := ((e.series.map EventSeries.count).or e.deprecated_count).getD 0
  last_timestamp_ms := ts_ms.getD now_ms

/-- An event as it comes out of a list, with what `now_ms` reads when its turn comes. -/
structure Listed (α : Type) where
  event : α
  now_ms : Int

def CoreEvent.kept (since_ms : Option Int) (l : Listed CoreEvent) : Option EventSummary :=
  let ts_ms := l.event.last_timestamp
  if keep ts_ms since_ms then some (l.event.summary ts_ms l.now_ms) else none

def V1Event.kept (since_ms : Option Int) (l : Listed V1Event) : Option EventSummary :=
  let ts_ms := l.event.ts_ms
  if keep ts_ms since_ms then some (l.event.summary ts_ms l.now_ms) else none

/-- The answer of a list call. A call that fails adds no event. -/
def summaries {α : Type} (kept : Listed α → Option EventSummary) :
    Except String (List (Listed α)) → List EventSummary
  | .error _ => []
  | .ok list => list.filterMap kept

abbrev EventKey := String × String × String × String × Int

def EventSummary.key (e : EventSummary) : EventKey :=
  (e.namespace_, e.kind, e.name, e.reason, e.last_timestamp_ms)

def dedup (events : List EventSummary) : List EventSummary :=
  retain_first EventSummary.key [] events

/-- `Reverse` of the time. -/
def newest_first (a b : EventSummary) : Ordering := compare b.last_timestamp_ms a.last_timestamp_ms

/-- What is sorted and merged. -/
def collected (core : Except String (List (Listed CoreEvent)))
    (v1 : Except String (List (Listed V1Event))) (since_ms : Option Int) : List EventSummary :=
  summaries (CoreEvent.kept since_ms) core ++ summaries (V1Event.kept since_ms) v1

variable (std : StableSort)

/-- The call never fails. -/
def recent_events (core : Except String (List (Listed CoreEvent)))
    (v1 : Except String (List (Listed V1Event))) (since_ms : Option Int) : List EventSummary :=
  dedup (std.sort_by newest_first (collected core v1 since_ms))

theorem mem_collected_of_mem {core : Except String (List (Listed CoreEvent))}
    {v1 : Except String (List (Listed V1Event))} {since_ms : Option Int} {s : EventSummary}
    (h : s ∈ recent_events std core v1 since_ms) : s ∈ collected core v1 since_ms := by
  have hfind := ((mem_retain_first _ _ _ s).mp h).2
  exact (std.perm _ _).subset (List.mem_of_find?_eq_some hfind)

theorem key_mem_recent_events {core : Except String (List (Listed CoreEvent))}
    {v1 : Except String (List (Listed V1Event))} {since_ms : Option Int} {s : EventSummary}
    (h : s ∈ collected core v1 since_ms) :
    s.key ∈ (recent_events std core v1 since_ms).map EventSummary.key :=
  key_mem_retain_first EventSummary.key ((std.perm _ _).symm.subset h)

/-! ## The last occurrence -/

/-- The times that an event of `events.k8s.io/v1` records. -/
def V1Event.recorded (e : V1Event) : List Int :=
  (e.series.map EventSeries.last_observed_time).toList ++ e.deprecated_last_timestamp.toList ++
    e.event_time.toList

/-- The instant is the last one that is recorded. -/
def CoreEvent.LastOccurrence (e : CoreEvent) (ts : Int) : Prop := e.last_timestamp = some ts

def V1Event.LastOccurrence (e : V1Event) (ts : Int) : Prop :=
  ts ∈ e.recorded ∧ ∀ t ∈ e.recorded, t ≤ ts

/-- The event occurred at or after `since` for the last time, and the summary has that instant. -/
def CoreEvent.InWindow (since : Int) (l : Listed CoreEvent) (s : EventSummary) : Prop :=
  ∃ ts, l.event.LastOccurrence ts ∧ since ≤ ts ∧ s = l.event.summary (some ts) l.now_ms

def V1Event.InWindow (since : Int) (l : Listed V1Event) (s : EventSummary) : Prop :=
  ∃ ts, l.event.LastOccurrence ts ∧ since ≤ ts ∧ s = l.event.summary (some ts) l.now_ms

/-- The window keeps an event for its last occurrence, and the answer shows these events
and no others. -/
structure ByLastOccurrence (core : List (Listed CoreEvent)) (v1 : List (Listed V1Event))
    (since : Int) : Prop where
  core_kept : ∀ l ∈ core, ∀ s, CoreEvent.kept (some since) l = some s ↔ CoreEvent.InWindow since l s
  v1_kept : ∀ l ∈ v1, ∀ s, V1Event.kept (some since) l = some s ↔ V1Event.InWindow since l s
  shown : ∀ s ∈ recent_events std (.ok core) (.ok v1) (some since),
    (∃ l ∈ core, CoreEvent.InWindow since l s) ∨ ∃ l ∈ v1, V1Event.InWindow since l s
  found : ∀ s, ((∃ l ∈ core, CoreEvent.InWindow since l s) ∨ ∃ l ∈ v1, V1Event.InWindow since l s) →
    s.key ∈ (recent_events std (.ok core) (.ok v1) (some since)).map EventSummary.key

/-- The first time that the event records, in the order `eventTime`, `lastObservedTime` of the
series, `deprecatedLastTimestamp`, is the last of them. -/
structure V1Event.FirstIsLast (e : V1Event) : Prop where
  event_time : ∀ t, e.event_time = some t →
    (∀ series, e.series = some series → series.last_observed_time ≤ t) ∧
      ∀ d, e.deprecated_last_timestamp = some d → d ≤ t
  series : e.event_time = none → ∀ series, e.series = some series →
    ∀ d, e.deprecated_last_timestamp = some d → d ≤ series.last_observed_time

theorem CoreEvent.kept_iff (since : Int) (l : Listed CoreEvent) (s : EventSummary) :
    CoreEvent.kept (some since) l = some s ↔ CoreEvent.InWindow since l s := by
  unfold CoreEvent.kept CoreEvent.InWindow CoreEvent.LastOccurrence
  cases l.event.last_timestamp with
  | none => simp [keep]
  | some ts => simp [keep, eq_comm]

/-- The window reads the first time of the event. -/
theorem V1Event.kept_iff (since : Int) (l : Listed V1Event) (s : EventSummary) :
    V1Event.kept (some since) l = some s ↔
      ∃ ts, l.event.ts_ms = some ts ∧ since ≤ ts ∧ s = l.event.summary (some ts) l.now_ms := by
  unfold V1Event.kept
  cases l.event.ts_ms with
  | none => simp [keep]
  | some ts => simp [keep, eq_comm]

theorem V1Event.firstIsLast_iff (e : V1Event) :
    e.FirstIsLast ↔ ∀ ts, e.ts_ms = some ts → e.LastOccurrence ts := by
  have hparts : e.FirstIsLast ↔ (∀ t, e.event_time = some t →
      (∀ series, e.series = some series → series.last_observed_time ≤ t) ∧
        ∀ d, e.deprecated_last_timestamp = some d → d ≤ t) ∧
      (e.event_time = none → ∀ series, e.series = some series →
        ∀ d, e.deprecated_last_timestamp = some d → d ≤ series.last_observed_time) :=
    ⟨fun h => ⟨h.event_time, h.series⟩, fun h => ⟨h.1, h.2⟩⟩
  rw [hparts]
  unfold V1Event.ts_ms V1Event.LastOccurrence V1Event.recorded
  cases e.event_time with
  | some t => cases e.series <;> cases e.deprecated_last_timestamp <;> simp
  | none => cases e.series <;> cases e.deprecated_last_timestamp <;> simp

/-- When the first time is the last one, the window is the one of the last occurrence. -/
theorem V1Event.kept_iff_inWindow {l : Listed V1Event} (h : l.event.FirstIsLast) (since : Int)
    (s : EventSummary) : V1Event.kept (some since) l = some s ↔ V1Event.InWindow since l s := by
  rw [V1Event.kept_iff, V1Event.InWindow]
  have hlast := l.event.firstIsLast_iff.mp h
  constructor
  · rintro ⟨ts, hts, hsince, hs⟩
    exact ⟨ts, hlast ts hts, hsince, hs⟩
  · rintro ⟨ts, ⟨hmem, hmax⟩, hsince, hs⟩
    cases hfirst : l.event.ts_ms with
    | none =>
      simp only [V1Event.ts_ms, Option.or_eq_none_iff, Option.map_eq_none_iff] at hfirst
      simp [V1Event.recorded, hfirst] at hmem
    | some first =>
      obtain ⟨hfirst_mem, hfirst_max⟩ := hlast first hfirst
      have heq : ts = first := Int.le_antisymm (hfirst_max ts hmem) (hmax first hfirst_mem)
      exact ⟨ts, by rw [heq], hsince, hs⟩

/-- The window of an event shows its first time, for some `since` at the latest. -/
theorem V1Event.firstIsLast_of_kept {l : Listed V1Event}
    (h : ∀ since s, V1Event.kept (some since) l = some s → V1Event.InWindow since l s) :
    l.event.FirstIsLast := by
  rw [V1Event.firstIsLast_iff]
  intro first hfirst
  have hkept : V1Event.kept (some first) l = some (l.event.summary (some first) l.now_ms) :=
    (V1Event.kept_iff first l _).mpr ⟨first, hfirst, Int.le_refl _, rfl⟩
  obtain ⟨ts, hlast, _, hs⟩ := h first _ hkept
  have heq : first = ts := congrArg EventSummary.last_timestamp_ms hs
  rw [heq]
  exact hlast

theorem byLastOccurrence_of_kept {core : List (Listed CoreEvent)} {v1 : List (Listed V1Event)}
    {since : Int}
    (h : ∀ l ∈ v1, ∀ s, V1Event.kept (some since) l = some s ↔ V1Event.InWindow since l s) :
    ByLastOccurrence std core v1 since := by
  have hcollected : ∀ s, s ∈ collected (.ok core) (.ok v1) (some since) ↔
      (∃ l ∈ core, CoreEvent.InWindow since l s) ∨ ∃ l ∈ v1, V1Event.InWindow since l s := by
    intro s
    simp only [collected, summaries, List.mem_append, List.mem_filterMap, CoreEvent.kept_iff]
    refine or_congr Iff.rfl ?_
    constructor
    · rintro ⟨l, hl, hs⟩
      exact ⟨l, hl, (h l hl s).mp hs⟩
    · rintro ⟨l, hl, hs⟩
      exact ⟨l, hl, (h l hl s).mpr hs⟩
  refine ⟨fun l _ s => CoreEvent.kept_iff since l s, h, ?_, ?_⟩
  · intro s hs
    exact (hcollected s).mp (mem_collected_of_mem std hs)
  · intro s hs
    exact key_mem_recent_events std ((hcollected s).mpr hs)

/-- For all lists of events, every window goes by the last occurrence exactly when no event of
`events.k8s.io/v1` has a later time behind the first one that the code reads. -/
theorem window_is_by_last_occurrence_iff (core : List (Listed CoreEvent))
    (v1 : List (Listed V1Event)) :
    (∀ since, ByLastOccurrence std core v1 since) ↔ ∀ l ∈ v1, l.event.FirstIsLast := by
  constructor
  · intro h l hl
    exact V1Event.firstIsLast_of_kept fun since s hs => ((h since).v1_kept l hl s).mp hs
  · intro h since
    exact byLastOccurrence_of_kept std fun l hl s => V1Event.kept_iff_inWindow (h l hl) since s

/-- A crash loop that began at 1000 and went on at 9000. -/
def crash_loop : Listed V1Event where
  event := { reason := some "BackOff", event_time := some 1000, series := some ⟨42, 9000⟩ }
  now_ms := 9500

theorem a_crash_loop_drops_out_of_the_window :
    ¬ByLastOccurrence mergeSort [] [crash_loop] 5000 := by
  intro h
  have hlast : crash_loop.event.LastOccurrence 9000 := by
    constructor <;> decide
  have hkept := (h.v1_kept crash_loop (List.mem_singleton_self _) _).mpr
    ⟨9000, hlast, by decide, rfl⟩
  cases hkept

end kaptein_core.events
