-- One call of an agent tool (`call_tool`): the three ways to refuse it, its
-- execution, and the record that is appended for it.
import Kaptein.Mcp
import Kaptein.RedactLine
import Kaptein.Versioned

open rust_str serde_json kaptein_core
open kaptein_viewmodel.audit kaptein_viewmodel.versioned

namespace kaptein_cli.mcp

/-- What the server adds to the answers of the cluster: the names for its records,
the clock, how a string is quoted in a message, the word characters of the redactor's
patterns, and whether the build checks its arithmetic for overflow. -/
structure Server where
  env : Env
  /-- The text of a log, where the request for it is answered. -/
  log : Request → String
  context_name : String
  session_id : String
  now_ms : Int
  debug : String → String
  word : Char → Bool
  overflow_checks : Bool

inductive Event where
  | request (r : Request)
  | audited (event : AuditEvent)
  deriving DecidableEq

def check_declared_version (server : Server) (declared : Option String) : Except String Unit :=
  match declared with
  | none => .ok ()
  | some declared =>
    match parse_api_version declared with
    | none =>
      .error ("contract: client declared an unparseable Kaptein api version " ++
        server.debug declared)
    | some requested =>
      if is_compatible MCP_API_VERSION requested then .ok ()
      else
        .error ("contract: this server implements Kaptein MCP schema " ++
          MCP_API_VERSION.display ++ ", which is incompatible with the client's " ++
          requested.display ++ " — upgrade the client or the server (docs/versioning.md)")

/-! ## The record of a call -/

/-- The operation of a tool in the log. Any other name has none. -/
def operation_of (tool_name : String) : Option Operation :=
  match tool_name with
  | "list_resources" | "get_events" => some .List
  | "describe" => some .Describe
  | "logs" => some .Logs
  | "diagnose" | "explain_pod_failure" | "why_is_job_pending" | "blast_radius"
  | "what_changed_between" => some .Diagnose
  | _ => none

/-- The object of the call: a list has no name, and only some tools name a kind. -/
def target_of (tool_name : String) (args : Option Map) : ResourceRef :=
  let get := fun k => (arg args k).getD ""
  let name := if tool_name = "list_resources" ∨ tool_name = "get_events" then "" else get "name"
  let (group, kind) := match tool_name with
    | "describe" | "list_resources" | "blast_radius" =>
      let (g, _, k) := parse_gvk_parts (get "gvk")
      (g, k)
    | "logs" | "diagnose" | "explain_pod_failure" => ("", "Pod")
    | "why_is_job_pending" => ("", "Job")
    | "get_events" | "what_changed_between" => ("", "Event")
    | _ => ("", tool_name)
  { group, kind, namespace_ := get "namespace", name }

/-- A call whose name has no operation is not recorded. -/
def audit (server : Server) (tool_name : String) (args : Option Map) (outcome : Outcome) :
    Traced Event Unit :=
  match operation_of tool_name with
  | none => pure ()
  | some operation =>
    Traced.emit (.audited {
      timestamp := server.now_ms
      actor := { kind := .Agent, name := server.env.agent_name }
      context := server.context_name
      operation
      target := target_of tool_name args
      outcome
      source := .Mcp
      session_id := server.session_id
      reason := none
      on_behalf_of := none })

/-! ## The execution -/

/-- An integer argument of the call. -/
def int_arg (args : Option Map) (k : String) : Option Int :=
  (args.bind fun m => Map.get m k).bind Value.as_i64

def fits_i64 (i : Int) : Bool := decide (-2 ^ 63 ≤ i ∧ i < 2 ^ 63)

/-- `minutes * 60 * 1000` leaves the range of an `i64`. -/
def look_back_overflows (minutes : Int) : Bool :=
  !fits_i64 (minutes * 60) || !fits_i64 (minutes * 60 * 1000)

/-- The call comes to compute a look-back that overflows. -/
def overflows (env : Env) (name : String) (args : Option Map) : Bool :=
  let minutes := (int_arg args "minutes").getD 15
  match name with
  | "get_events" => look_back_overflows minutes
  | "explain_pod_failure" =>
    match arg args "name", arg args "namespace" with
    | some name, some namespace_ =>
      (env.api.answer (pod_request namespace_ name)).isOk && look_back_overflows minutes
    | _, _ => false
  | "what_changed_between" =>
    (arg args "namespace").isSome && (int_arg args "from_ms").isNone &&
      look_back_overflows minutes
  | _ => false

/-- The first container with a line that the redactor panics at, counted from zero. The log of
the next container is asked for when the lines of this one are redacted. -/
def redaction_panics (server : Server) (namespace_ name : String) : List String → Option Nat
  | [] => none
  | cname :: names =>
    let r := logs_request namespace_ name (some cname)
    match server.env.api.answer r with
    | .error _ => none
    | .ok _ =>
      if (lines (server.log r)).any fun line => (redact.redact_line server.word line).isNone then
        some 0
      else (redaction_panics server namespace_ name names).map (· + 1)

variable (to_plural : String → String)

/-- The number of requests after which the tool panics. The logs come behind the pod, and an
overflow that is checked ends the call before the two lists of events are asked for. -/
def panics_after (server : Server) (name : String) (args : Option Map) : Option Nat :=
  match name with
  | "logs" =>
    match arg args "name", arg args "namespace" with
    | some name, some namespace_ =>
      match server.env.api.answer (pod_request namespace_ name) with
      | .ok _ =>
        (redaction_panics server namespace_ name (server.env.api.containers name)).map (· + 2)
      | .error _ => none
    | _, _ => none
  | _ =>
    if server.overflow_checks && overflows server.env name args then
      some ((exec_tool to_plural server.env name args).events.length - 2)
    else none

/-- The tool, with its error as a value. A panic has a message of its own, which nobody reads. -/
def execute (server : Server) (name : String) (args : Option Map) :
    Traced Event (Except String Unit) :=
  let x := exec_tool to_plural server.env name args
  match panics_after to_plural server name args with
  | some n => { events := (x.events.take n).map .request, result := .error "panicked" }
  | none => { events := x.events.map .request, result := .ok x.result }

/-- The answer of a call is a text or an error; only a panic ends it without one. -/
def call_tool (server : Server) (declared : Option String) (name : String) (args : Option Map) :
    Traced Event (Except String Unit) :=
  match check_declared_version server declared with
  | .error msg => do
    audit server name args .Rejected
    pure (.error msg)
  | .ok () =>
    match governance to_plural server.env name args with
    | .error msg => do
      audit server name args .Rejected
      pure (.error msg)
    | .ok () => do
      match ← execute to_plural server name args with
      | .ok () => do
        audit server name args .Applied
        pure (.ok ())
      | .error msg => do
        audit server name args .Rejected
        pure (.error msg)

/-! ## One record for each call -/

/-- The version is accepted, the call is let through, and the tool returns a text. -/
def Executed (server : Server) (declared : Option String) (name : String) (args : Option Map) :
    Prop :=
  check_declared_version server declared = .ok () ∧
    governance to_plural server.env name args = .ok () ∧
    (exec_tool to_plural server.env name args).result = .ok ()

/-- The call is let through, and comes to a log line that the redactor panics at or to an
overflow that the build checks. -/
def Panics (server : Server) (declared : Option String) (name : String) (args : Option Map) :
    Prop :=
  check_declared_version server declared = .ok () ∧
    governance to_plural server.env name args = .ok () ∧
    (panics_after to_plural server name args).isSome = true

/-- The records among the events. -/
def records (events : List Event) : List AuditEvent :=
  events.filterMap fun e => match e with
    | .audited a => some a
    | .request _ => none

/-- The run appends one record, `Applied` for a tool that was executed and
`Rejected` for any other call. -/
def AuditedOnce (events : List Event) (executed : Prop) : Prop :=
  ∃ a, records events = [a] ∧ (a.outcome = .Applied ↔ executed) ∧
    (a.outcome = .Rejected ↔ ¬ executed)

@[simp] theorem records_append (a b : List Event) : records (a ++ b) = records a ++ records b := by
  simp [records]

@[simp] theorem records_requests (rs : List Request) : records (rs.map .request) = [] := by
  simp [records, List.filterMap_map]

theorem operation_of_isSome_iff (name : String) : (operation_of name).isSome ↔ name ∈ tools := by
  constructor
  · unfold operation_of
    split <;> simp [tools]
  · intro h
    simp only [tools, List.mem_cons, List.not_mem_nil, or_false] at h
    rcases h with rfl | rfl | rfl | rfl | rfl | rfl | rfl | rfl | rfl <;> rfl

/-- A record is made exactly for an advertised name, and with the outcome given. -/
theorem records_audit (server : Server) (name : String) (args : Option Map) (outcome : Outcome) :
    (name ∈ tools → ∃ a, records (audit server name args outcome).events = [a] ∧
        a.outcome = outcome) ∧
      (name ∉ tools → records (audit server name args outcome).events = []) := by
  rw [← operation_of_isSome_iff]
  unfold audit
  cases operation_of name with
  | none => exact ⟨nofun, fun _ => rfl⟩
  | some op => exact ⟨fun _ => ⟨_, rfl, rfl⟩, fun h => absurd rfl h⟩

/-- The record of a call is its last event, and what came before holds no record. -/
theorem auditedOnce_iff {server : Server} {name : String} {args : Option Map} {outcome : Outcome}
    {rs : List Request} {executed : Prop} (hyes : executed → outcome = .Applied)
    (hno : ¬ executed → outcome = .Rejected) :
    AuditedOnce (rs.map .request ++ (audit server name args outcome).events) executed ↔
      name ∈ tools := by
  unfold AuditedOnce
  rw [records_append, records_requests, List.nil_append]
  obtain ⟨hsome, hnone⟩ := records_audit server name args outcome
  by_cases hname : name ∈ tools
  · refine iff_of_true ?_ hname
    obtain ⟨a, ha, hout⟩ := hsome hname
    refine ⟨a, ha, ?_, ?_⟩
    · rw [hout]
      refine ⟨fun h => ?_, hyes⟩
      by_contra hex
      rw [hno hex] at h
      cases h
    · rw [hout]
      refine ⟨fun h hex => ?_, hno⟩
      rw [hyes hex] at h
      cases h
  · refine iff_of_false ?_ hname
    rw [hnone hname]
    rintro ⟨a, ha, _⟩
    cases ha

theorem audit_then_answer (server : Server) (name : String) (args : Option Map) (outcome : Outcome)
    (answer : Except String Unit) :
    (audit server name args outcome >>= fun _ => pure answer).events =
      (audit server name args outcome).events := by
  have hr : (audit server name args outcome).result = .ok () := by
    unfold audit
    split <;> rfl
  rw [Traced.bind_ok hr, Traced.pure_events, List.append_nil]

/-- The events of a call that is refused before its execution. -/
theorem refused_audited_iff {server : Server} {name : String} {args : Option Map}
    {answer : Except String Unit} {executed : Prop} (h : ¬ executed) :
    AuditedOnce (audit server name args .Rejected >>= fun _ => pure answer).events executed ↔
      name ∈ tools := by
  rw [audit_then_answer]
  exact @auditedOnce_iff _ _ _ _ [] _ (fun hex => absurd hex h) (fun _ => rfl)

/-- The events of a call that is executed. -/
theorem executed_events (server : Server) (name : String) (args : Option Map)
    (h : panics_after to_plural server name args = none)
    (answer : Except String Unit → Traced Event (Except String Unit)) :
    (execute to_plural server name args >>= answer).events =
      (exec_tool to_plural server.env name args).events.map .request ++
        (answer (exec_tool to_plural server.env name args).result).events := by
  have hr : (execute to_plural server name args).result =
      .ok (exec_tool to_plural server.env name args).result := by simp [execute, h]
  rw [Traced.bind_ok hr]
  simp [execute, h]

/-- A panic ends a call with requests alone. -/
theorem panicked_events (server : Server) (name : String) (args : Option Map) {n : Nat}
    (h : panics_after to_plural server name args = some n)
    (answer : Except String Unit → Traced Event (Except String Unit)) :
    execute to_plural server name args >>= answer =
      { events := ((exec_tool to_plural server.env name args).events.take n).map .request
        result := .error "panicked" } := by
  have hr : (execute to_plural server name args).result = .error "panicked" := by
    simp [execute, h]
  rw [Traced.bind_error hr]
  simp only [execute, h]

/-- A call is recorded once, with the outcome that it had, exactly where its name is
one of the advertised tools and it does not end in a panic. -/
theorem call_is_audited_once_iff (server : Server) (declared : Option String) (name : String)
    (args : Option Map) :
    AuditedOnce (call_tool to_plural server declared name args).events
        (Executed to_plural server declared name args) ↔
      name ∈ tools ∧ ¬ Panics to_plural server declared name args := by
  unfold call_tool Executed Panics
  cases hversion : check_declared_version server declared with
  | error msg => simp [refused_audited_iff]
  | ok _ =>
    cases hgov : governance to_plural server.env name args with
    | error msg => simp [refused_audited_iff]
    | ok _ =>
      simp only [true_and]
      cases hpanic : panics_after to_plural server name args with
      | some n =>
        refine iff_of_false ?_ (by simp)
        rw [panicked_events to_plural server name args hpanic]
        rintro ⟨a, ha, _⟩
        rw [records_requests] at ha
        cases ha
      | none =>
        rw [executed_events to_plural server name args hpanic]
        simp only [Option.isSome_none, Bool.false_eq_true, not_false_eq_true, and_true]
        cases hresult : (exec_tool to_plural server.env name args).result with
        | error msg =>
          simp only [audit_then_answer]
          exact auditedOnce_iff (by simp) (fun _ => rfl)
        | ok _ =>
          simp only [audit_then_answer]
          exact auditedOnce_iff (fun _ => rfl) (by simp)

/-- A call of a name that is no tool is refused, and leaves no record. -/
theorem an_unknown_tool_is_not_recorded :
    let server : Server := {
      env := default_reader, log := fun _ => "", context_name := "prod-eu", session_id := "mcp-0"
      now_ms := 0, debug := id, word := redact.ascii_word, overflow_checks := false }
    (call_tool (· ++ "s") server none "delete_pod" none).result =
        .ok (.error "unknown tool: delete_pod") ∧
      (call_tool (· ++ "s") server none "delete_pod" none).events = [] ∧
      ¬ AuditedOnce (call_tool (· ++ "s") server none "delete_pod" none).events
        (Executed (· ++ "s") server none "delete_pod" none) := by
  intro server
  refine ⟨by decide, by decide, ?_⟩
  rw [call_is_audited_once_iff]
  rintro ⟨hname, _⟩
  revert hname
  decide

end kaptein_cli.mcp
