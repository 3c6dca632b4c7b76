-- The windows of time that look back from now: the events of the last minutes, which the
-- command line (`main.rs`), the agent tools (`mcp.rs`) and the moat (`moat.rs`) read.
import Kaptein.Diagnostics
import Kaptein.Events
import Kaptein.Lib.Int64
import Kaptein.McpAudit

open rust_i64 rust_slice serde_json
open kaptein_core.events kaptein_core.diagnostics

namespace kaptein_core.moat

/-- The answers of the cluster. No namespace stands for all of them. -/
structure Cluster where
  core_events : Option String → Except String (List (Listed CoreEvent))
  v1_events : Option String → Except String (List (Listed V1Event))
  pod : (namespace_ name : String) → Except String Pod

structure PodFailureExplanation where
  namespace_ : String
  name : String
  findings : List Finding
  related_events : List EventSummary

structure WhatChanged where
  namespace_ : String
  from_ms : Int64
  to_ms : Int64
  events : List EventSummary

section

variable (std : StableSort) (cluster : Cluster)

def events_since (namespace_ : Option String) (since_ms : Int64) : List EventSummary :=
  kaptein_core.events.recent_events std (cluster.core_events namespace_)
    (cluster.v1_events namespace_) (some since_ms.toInt)

/-- The explanation from the events of a window. -/
def explanation (namespace_ name : String) (pod : Pod) (since_ms : Int64) :
    PodFailureExplanation where
  namespace_
  name
  findings := diagnose pod
  related_events := (events_since std cluster (some namespace_) since_ms).filter fun e =>
    e.kind == "Pod" && e.name == name && e.type_ == "Warning"

/-- What changed from the start of a window to its end. -/
def changes (namespace_ : String) (from_ms to_ms : Int64) : WhatChanged where
  namespace_
  from_ms
  to_ms
  events := (events_since std cluster (some namespace_) from_ms).filter fun e =>
    e.last_timestamp_ms ≤ to_ms.toInt

variable (overflow_checks : Bool) (now_ms : Int64)

/-- `to.saturating_sub(minutes * 60 * 1000)`, `none` where a product panics. -/
def look_back (to_ms minutes : Int64) : Option Int64 := do
  let seconds ← mul overflow_checks minutes 60
  let ms ← mul overflow_checks seconds 1000
  pure (saturating_sub to_ms ms)

def explain_pod_failure (namespace_ name : String) (event_window_minutes : Int64) :
    Option (Except String PodFailureExplanation) :=
  match cluster.pod namespace_ name with
  | .error e => some (.error e)
  | .ok pod => do
    let since_ms ← look_back overflow_checks now_ms event_window_minutes
    pure (.ok (explanation std cluster namespace_ name pod since_ms))

def what_changed_between (namespace_ : String) (from_ms to_ms minutes : Option Int64) :
    Option WhatChanged := do
  let to_ms := to_ms.getD now_ms
  let from_ms ← match from_ms with
    | some from_ms => pure from_ms
    | none => look_back overflow_checks to_ms (minutes.getD 15)
  pure (changes std cluster namespace_ from_ms to_ms)

end

/-! ## The start of a window -/

/-- The exact start, or the bound that it is beyond. -/
def window_start (to_ms minutes : Int64) : Int64 :=
  Int64.ofIntClamp (to_ms.toInt - minutes.toInt * 60000)

/-- `i64::MAX / 60000`. -/
def LOOK_BACK_LIMIT : Int := 153722867280912

def Within (minutes : Int64) : Prop :=
  -LOOK_BACK_LIMIT ≤ minutes.toInt ∧ minutes.toInt ≤ LOOK_BACK_LIMIT

instance (minutes : Int64) : Decidable (Within minutes) := inferInstanceAs (Decidable (_ ∧ _))

/-- No product on the way to the start leaves its range. -/
def Fits (minutes : Int64) : Prop :=
  ¬mul_overflows minutes 60 ∧ ¬mul_overflows (minutes * 60) 1000

theorem toInt_sixty : (60 : Int64).toInt = 60 := rfl

theorem toInt_thousand : (1000 : Int64).toInt = 1000 := rfl

theorem fits_iff (minutes : Int64) : Fits minutes ↔ Within minutes := by
  unfold Fits Within LOOK_BACK_LIMIT
  constructor
  · rintro ⟨hseconds, hms⟩
    have hproduct := toInt_mul_of_fits hseconds
    rw [toInt_sixty] at hproduct
    unfold mul_overflows at hms
    rw [hproduct, toInt_thousand] at hms
    omega
  · rintro ⟨hlow, hhigh⟩
    have hseconds : ¬mul_overflows minutes 60 := by
      unfold mul_overflows
      rw [toInt_sixty]
      omega
    have hproduct := toInt_mul_of_fits hseconds
    rw [toInt_sixty] at hproduct
    refine ⟨hseconds, ?_⟩
    unfold mul_overflows
    rw [hproduct, toInt_thousand]
    omega

/-- Within the limit the start is exact in every build. -/
theorem look_back_eq {minutes : Int64} (h : Within minutes) (overflow_checks : Bool)
    (to_ms : Int64) :
    look_back overflow_checks to_ms minutes = some (window_start to_ms minutes) := by
  obtain ⟨hseconds, hms⟩ := (fits_iff minutes).mpr h
  have hproduct : (minutes * 60 * 1000).toInt = minutes.toInt * 60000 := by
    rw [toInt_mul_of_fits hms, toInt_mul_of_fits hseconds, toInt_sixty, toInt_thousand,
      Int.mul_assoc]
    rfl
  have hstart : saturating_sub to_ms (minutes * 60 * 1000) = window_start to_ms minutes := by
    unfold saturating_sub window_start
    rw [hproduct]
  unfold look_back
  rw [mul_of_fits hseconds, Option.bind_eq_bind, Option.bind_some, mul_of_fits hms,
    Option.bind_some, hstart]
  rfl

/-- Beyond the limit a build that checks its arithmetic panics. -/
theorem look_back_panics {minutes : Int64} (h : ¬Within minutes) (to_ms : Int64) :
    look_back true to_ms minutes = none := by
  rw [← fits_iff] at h
  unfold look_back
  by_cases hseconds : mul_overflows minutes 60
  · rw [mul_panics hseconds]
    rfl
  · have hms : mul_overflows (minutes * 60) 1000 := by
      by_contra hms
      exact h ⟨hseconds, hms⟩
    rw [mul_of_fits hseconds, Option.bind_eq_bind, Option.bind_some, mul_panics hms]
    rfl

theorem window_start_le {a b : Int64} (h : a ≤ b) (to_ms : Int64) :
    window_start to_ms b ≤ window_start to_ms a := by
  have hle := Int64.le_iff_toInt_le.mp h
  apply ofIntClamp_le
  omega

end kaptein_core.moat

namespace kaptein_cli

open kaptein_core.moat

/-- What the landing view takes from the events. -/
structure Overview where
  warnings : List EventSummary
  total_events : Nat
  affected_namespaces : List String

variable (std : StableSort) (cluster : Cluster) (overflow_checks : Bool) (now_ms : Int64)

def summarize (events : List EventSummary) : Overview where
  warnings := events.filter fun e => e.type_ == "Warning"
  total_events := events.length
  affected_namespaces := (std.sort_by compare
    (((events.filter fun e => e.type_ == "Warning").map EventSummary.namespace_).filter
      (· ≠ ""))).destutter (· ≠ ·)

def event_line (e : EventSummary) : String :=
  toString e.last_timestamp_ms ++ "\t" ++ e.type_ ++ "\t" ++ e.kind ++ "/" ++ e.name ++ "\t" ++
    e.reason ++ "\t" ++ e.message

/-- The command `events`. -/
def events (namespace_ : Option String) (minutes : Int64) : Option (List String) := do
  let since_ms ← look_back overflow_checks now_ms minutes
  pure ((events_since std cluster namespace_ since_ms).map event_line)

/-- The command `overview`. -/
def overview (minutes : Int64) : Option Overview := do
  let since_ms ← look_back overflow_checks now_ms minutes
  pure (summarize std (events_since std cluster none since_ms))

namespace mcp

def i64_arg (args : Option Map) (k : String) : Option Int64 := (int_arg args k).map Int64.ofInt

/-- The `minutes` of a call. -/
def minutes_arg (args : Option Map) : Int64 := (i64_arg args "minutes").getD 15

def events_text (events : List EventSummary) : String :=
  "\n".intercalate (events.map fun e =>
    e.type_ ++ " " ++ e.reason ++ " " ++ e.kind ++ "/" ++ e.name ++ ": " ++ e.message)

def explanation_text (expl : PodFailureExplanation) : String :=
  let findings :=
    if expl.findings.isEmpty then [expl.namespace_ ++ "/" ++ expl.name ++ ": ready (no findings)"]
    else expl.findings.map Finding.line
  "\n".intercalate (findings ++
    ("related warning events (" ++ toString expl.related_events.length ++ "):") ::
      expl.related_events.map fun e => "  " ++ e.reason ++ ": " ++ e.message)

def changes_text (wc : WhatChanged) : String :=
  "\n".intercalate ((wc.namespace_ ++ ": " ++ toString wc.events.length ++ " events between " ++
    toString wc.from_ms ++ " and " ++ toString wc.to_ms) ::
      wc.events.map fun e =>
        e.type_ ++ " " ++ e.reason ++ " " ++ e.kind ++ "/" ++ e.name ++ ": " ++ e.message)

def get_events (args : Option Map) : Option (Except String String) := do
  let since_ms ← look_back overflow_checks now_ms (minutes_arg args)
  pure (.ok (events_text (events_since std cluster (arg args "namespace") since_ms)))

def explain_pod_failure (args : Option Map) : Option (Except String String) :=
  match arg args "name", arg args "namespace" with
  | none, _ => some (.error "missing 'name'")
  | some _, none => some (.error "missing 'namespace'")
  | some name, some namespace_ => do
    let expl ← kaptein_core.moat.explain_pod_failure std cluster overflow_checks now_ms
      namespace_ name (minutes_arg args)
    pure (expl.map explanation_text)

def what_changed_between (args : Option Map) : Option (Except String String) :=
  match arg args "namespace" with
  | none => some (.error "missing 'namespace'")
  | some namespace_ => do
    let wc ← kaptein_core.moat.what_changed_between std cluster overflow_checks now_ms namespace_
      (i64_arg args "from_ms") (i64_arg args "to_ms") (i64_arg args "minutes")
    pure (.ok (changes_text wc))

end mcp

/-- A call that the server ends for its arithmetic is one beyond the limit. -/
theorem look_back_overflows_iff (minutes : Int64) :
    mcp.look_back_overflows minutes.toInt = true ↔ ¬Within minutes := by
  unfold mcp.look_back_overflows mcp.fits_i64 Within LOOK_BACK_LIMIT
  simp only [Bool.or_eq_true, Bool.not_eq_true', decide_eq_false_iff_not]
  omega

/-! ## Who looks back -/

/-- With these minutes, each window that looks back starts where it should, and no product on
the way to its start wraps or panics: a build that checks its arithmetic comes to a start, and
the server ends no call for them. -/
structure LooksBack (minutes : Int64) : Prop where
  fits : ∀ to_ms, look_back true to_ms minutes ≠ none
  answers : mcp.look_back_overflows minutes.toInt = false
  events : ∀ namespace_,
    events std cluster overflow_checks now_ms namespace_ minutes =
      some ((events_since std cluster namespace_ (window_start now_ms minutes)).map event_line)
  overview :
    overview std cluster overflow_checks now_ms minutes =
      some (summarize std (events_since std cluster none (window_start now_ms minutes)))
  get_events : ∀ args, mcp.minutes_arg args = minutes →
    mcp.get_events std cluster overflow_checks now_ms args =
      some (.ok (mcp.events_text (events_since std cluster (mcp.arg args "namespace")
        (window_start now_ms minutes))))
  explain_pod_failure : ∀ namespace_ name pod, cluster.pod namespace_ name = .ok pod →
    kaptein_core.moat.explain_pod_failure std cluster overflow_checks now_ms namespace_ name
        minutes =
      some (.ok (explanation std cluster namespace_ name pod (window_start now_ms minutes)))
  explain_tool : ∀ args namespace_ name pod, mcp.arg args "name" = some name →
    mcp.arg args "namespace" = some namespace_ → mcp.minutes_arg args = minutes →
    cluster.pod namespace_ name = .ok pod →
    mcp.explain_pod_failure std cluster overflow_checks now_ms args =
      some (.ok (mcp.explanation_text
        (explanation std cluster namespace_ name pod (window_start now_ms minutes))))
  what_changed_between : ∀ namespace_ to_ms,
    kaptein_core.moat.what_changed_between std cluster overflow_checks now_ms namespace_ none
        to_ms (some minutes) =
      some (changes std cluster namespace_ (window_start (to_ms.getD now_ms) minutes)
        (to_ms.getD now_ms))
  what_changed_tool : ∀ args namespace_, mcp.arg args "namespace" = some namespace_ →
    mcp.i64_arg args "from_ms" = none → mcp.minutes_arg args = minutes →
    mcp.what_changed_between std cluster overflow_checks now_ms args =
      some (.ok (mcp.changes_text (changes std cluster namespace_
        (window_start ((mcp.i64_arg args "to_ms").getD now_ms) minutes)
        ((mcp.i64_arg args "to_ms").getD now_ms))))

theorem looksBack_of_within {minutes : Int64} (h : Within minutes) :
    LooksBack std cluster overflow_checks now_ms minutes where
  fits to_ms := by
    rw [look_back_eq h]
    exact Option.some_ne_none _
  answers := by
    rw [Bool.eq_false_iff, ne_eq, look_back_overflows_iff, not_not]
    exact h
  events namespace_ := by
    unfold events
    rw [look_back_eq h]
    rfl
  overview := by
    unfold overview
    rw [look_back_eq h]
    rfl
  get_events args hminutes := by
    unfold mcp.get_events
    rw [hminutes, look_back_eq h]
    rfl
  explain_pod_failure namespace_ name pod hpod := by
    unfold kaptein_core.moat.explain_pod_failure
    rw [hpod]
    dsimp only
    rw [look_back_eq h]
    rfl
  explain_tool args namespace_ name pod hname hnamespace hminutes hpod := by
    unfold mcp.explain_pod_failure kaptein_core.moat.explain_pod_failure
    rw [hname, hnamespace]
    dsimp only
    rw [hpod, hminutes]
    dsimp only
    rw [look_back_eq h]
    rfl
  what_changed_between namespace_ to_ms := by
    unfold kaptein_core.moat.what_changed_between
    dsimp only [Option.getD_some]
    rw [look_back_eq h]
    rfl
  what_changed_tool args namespace_ hnamespace hfrom hminutes := by
    unfold mcp.what_changed_between kaptein_core.moat.what_changed_between
    unfold mcp.minutes_arg at hminutes
    rw [hnamespace]
    dsimp only
    rw [hfrom, hminutes]
    dsimp only
    rw [look_back_eq h]
    rfl

/-- Two windows start where they should, and the longer one not later, exactly when the
minutes of both are within the limit. -/
theorem look_back_is_safe_iff (std : StableSort) (cluster : Cluster) (overflow_checks : Bool)
    (now_ms a b : Int64) :
    (LooksBack std cluster overflow_checks now_ms a ∧
        LooksBack std cluster overflow_checks now_ms b ∧
        (a ≤ b → ∀ s t, look_back overflow_checks now_ms a = some s →
          look_back overflow_checks now_ms b = some t → t ≤ s)) ↔
      Within a ∧ Within b := by
  constructor
  · rintro ⟨ha, hb, -⟩
    have hwithin : ∀ minutes, look_back true now_ms minutes ≠ none → Within minutes :=
      fun minutes h => not_imp_comm.mp (fun hout => look_back_panics hout now_ms) h
    exact ⟨hwithin a (ha.fits now_ms), hwithin b (hb.fits now_ms)⟩
  · rintro ⟨ha, hb⟩
    refine ⟨looksBack_of_within std cluster overflow_checks now_ms ha,
      looksBack_of_within std cluster overflow_checks now_ms hb, ?_⟩
    intro hle s t hs ht
    rw [look_back_eq ha] at hs
    rw [look_back_eq hb] at ht
    cases hs
    cases ht
    exact window_start_le hle now_ms

/-- One minute beyond the limit: a panic, or a window that starts at the end of time. -/
theorem a_minute_beyond_the_limit :
    look_back true 1700000000000 153722867280913 ≠
        some (window_start 1700000000000 153722867280913) ∧
      look_back false 1700000000000 153722867280913 ≠
        some (window_start 1700000000000 153722867280913) := by
  decide

end kaptein_cli
