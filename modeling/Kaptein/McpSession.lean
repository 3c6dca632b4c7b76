-- A session of agent calls (`serve`): the calls run at the same time, so their requests and
-- their records come in any order, and the log on disk is what the session leaves.
import Kaptein.McpAudit
import Kaptein.AuditLog
import Kaptein.Lib.Interleaving

open serde_json kaptein_core interleaving
open kaptein_viewmodel.audit kaptein_viewmodel.versioned

namespace kaptein_cli.mcp

/-- What does not change while the server runs, and the version that its client declared. -/
structure Session where
  agent_name : String
  context_name : String
  session_id : String
  debug : String → String
  word : Char → Bool
  overflow_checks : Bool
  declared : Option String

/-- A call, with the cluster, the config and the clock as it finds them. -/
structure Call where
  env : Env
  log : Request → String
  now_ms : { t : Int // serde.FitsI64 t }
  name : String
  args : Option Map

def Session.server (s : Session) (c : Call) : Server where
  env := { c.env with agent_name := s.agent_name }
  log := c.log
  context_name := s.context_name
  session_id := s.session_id
  now_ms := c.now_ms
  debug := s.debug
  word := s.word
  overflow_checks := s.overflow_checks

variable (to_plural : String → String)

def Session.call (s : Session) (c : Call) : Traced Event (Except String Unit) :=
  call_tool to_plural (s.server c) s.declared c.name c.args

/-- The version is accepted and the call is let through. -/
def Admitted (s : Session) (c : Call) : Prop :=
  check_declared_version (s.server c) s.declared = .ok () ∧
    governance to_plural (s.server c).env c.name c.args = .ok ()

/-- What the record of a call says of its answer. A call without an answer has panicked. -/
def outcome_of : Except String (Except String Unit) → Option Outcome
  | .ok (.ok ()) => some .Applied
  | .ok (.error _) => some .Rejected
  | .error _ => none

/-- The record that a call leaves. -/
def Session.record (s : Session) (c : Call) : Option AuditEvent := do
  let operation ← operation_of c.name
  let outcome ← outcome_of (s.call to_plural c).result
  return {
    timestamp := c.now_ms
    actor := { kind := .Agent, name := s.agent_name }
    context := s.context_name
    operation
    target := target_of c.name c.args
    outcome
    source := .Mcp
    session_id := s.session_id
    reason := none
    on_behalf_of := none }

/-! ## One call -/

theorem audit_result (server : Server) (name : String) (args : Option Map) (outcome : Outcome) :
    (audit server name args outcome).result = .ok () := by
  unfold audit
  split <;> rfl

theorem answer_result (server : Server) (name : String) (args : Option Map) (outcome : Outcome)
    (answer : Except String Unit) :
    (audit server name args outcome >>= fun _ => pure answer).result = .ok answer := by
  rw [Traced.bind_ok (audit_result server name args outcome)]
  rfl

/-- What a call does: it sends requests of its tool, if it is let through, and then makes its
record, if it has an answer. -/
def Does (server : Server) (declared : Option String) (name : String) (args : Option Map)
    (x : Traced Event (Except String Unit)) : Prop :=
  ∃ rs : List Request,
    (∀ r ∈ rs, r ∈ (exec_tool to_plural server.env name args).events ∧
      check_declared_version server declared = .ok () ∧
      governance to_plural server.env name args = .ok ()) ∧
    x.events = rs.map .request ++
      ((outcome_of x.result).toList.flatMap fun o => (audit server name args o).events)

theorem does_refused (server : Server) (declared : Option String) (name : String)
    (args : Option Map) (msg : String) :
    Does to_plural server declared name args
      (audit server name args .Rejected >>= fun _ => pure (.error msg)) := by
  refine ⟨[], nofun, ?_⟩
  rw [audit_then_answer, answer_result]
  exact (List.append_nil _).symm

theorem does_call (server : Server) (declared : Option String) (name : String)
    (args : Option Map) :
    Does to_plural server declared name args (call_tool to_plural server declared name args) := by
  unfold call_tool
  cases hversion : check_declared_version server declared with
  | error msg => exact does_refused to_plural server declared name args msg
  | ok _ =>
    cases hgov : governance to_plural server.env name args with
    | error msg => exact does_refused to_plural server declared name args msg
    | ok _ =>
      simp only
      cases hpanic : panics_after to_plural server name args with
      | some n =>
        rw [panicked_events to_plural server name args hpanic]
        refine ⟨(exec_tool to_plural server.env name args).events.take n,
          fun r hr => ⟨List.mem_of_mem_take hr, hversion, hgov⟩, ?_⟩
        exact (List.append_nil _).symm
      | none =>
        have hresult : (execute to_plural server name args).result =
            .ok (exec_tool to_plural server.env name args).result := by simp [execute, hpanic]
        refine ⟨(exec_tool to_plural server.env name args).events,
          fun r hr => ⟨hr, hversion, hgov⟩, ?_⟩
        rw [executed_events to_plural server name args hpanic, Traced.bind_ok hresult]
        congr 1
        cases (exec_tool to_plural server.env name args).result with
        | error msg =>
          simp only [audit_then_answer, answer_result]
          exact (List.append_nil _).symm
        | ok _ =>
          simp only [audit_then_answer, answer_result]
          exact (List.append_nil _).symm

/-- A call is recorded with the outcome that its answer has. -/
theorem records_call (s : Session) (c : Call) :
    records (s.call to_plural c).events = (s.record to_plural c).toList := by
  obtain ⟨rs, -, hevents⟩ := does_call to_plural (s.server c) s.declared c.name c.args
  rw [Session.call, hevents, records_append, records_requests, List.nil_append, Session.record]
  rw [Session.call]
  cases outcome_of (call_tool to_plural (s.server c) s.declared c.name c.args).result with
  | none => cases operation_of c.name <;> rfl
  | some outcome =>
    simp only [Option.toList_some, List.flatMap_cons, List.flatMap_nil, List.append_nil]
    unfold audit
    cases operation_of c.name with
    | none => rfl
    | some operation => rfl

/-- A call sends requests only if it is let through, and then those of its tool, which only
read. -/
theorem request_of_call (s : Session) (c : Call) {r : Request}
    (h : .request r ∈ (s.call to_plural c).events) :
    r.reads ∧ Admitted to_plural s c ∧
      r ∈ (exec_tool to_plural (s.server c).env c.name c.args).events := by
  obtain ⟨rs, hrs, hevents⟩ := does_call to_plural (s.server c) s.declared c.name c.args
  rw [Session.call, hevents, List.mem_append] at h
  have hmem : r ∈ rs := by
    rcases h with h | h
    · simpa using h
    · obtain ⟨outcome, -, h⟩ := List.mem_flatMap.mp h
      revert h
      unfold audit
      split
      · exact nofun
      · intro h
        simp [Traced.emit] at h
  obtain ⟨hexec, hversion, hgov⟩ := hrs r hmem
  refine ⟨?_, ⟨hversion, hgov⟩, hexec⟩
  have hreads := governed_call_reads to_plural (s.server c).env c.name c.args
  rw [governed_call, hgov] at hreads
  exact not_not.mp (hreads r hexec)

/-! ## All the calls -/

/-- The runs of the calls, each event with the place of its call. -/
def Session.runs (s : Session) (calls : List Call) : List (List (Nat × Event)) :=
  calls.zipIdx.map fun c => (s.call to_plural c.1).events.map fun e => (c.2, e)

theorem records_interleaved {s : Session} {calls : List Call} {events : List (Nat × Event)}
    (h : Interleaving (s.runs to_plural calls) events) :
    (records (events.map Prod.snd)).Perm (calls.filterMap (s.record to_plural)) := by
  have hperm := h.perm.map Prod.snd
  have hruns : (s.runs to_plural calls).flatten.map Prod.snd =
      (calls.map fun c => (s.call to_plural c).events).flatten := by
    have hcalls : calls = calls.zipIdx.map Prod.fst := List.zipIdx_map_fst 0 calls |>.symm
    rw [List.map_flatten, Session.runs, List.map_map]
    conv => rhs; rw [hcalls]
    rw [List.map_map]
    congr 1
    refine List.map_congr_left fun c _ => ?_
    simp [Function.comp_def]
  rw [hruns] at hperm
  refine (hperm.filterMap _).trans (.of_eq ?_)
  rw [List.filterMap_flatten, List.map_map, List.filterMap_eq_flatMap_toList, List.flatMap_def]
  congr 1
  exact List.map_congr_left fun c _ => records_call to_plural s c

/-- Every request of a session is sent for a call that was let through, is one of its tool, and
only reads. -/
theorem request_interleaved {s : Session} {calls : List Call} {events : List (Nat × Event)}
    (h : Interleaving (s.runs to_plural calls) events) {i : Nat} {r : Request}
    (hr : (i, .request r) ∈ events) :
    ∃ c, calls[i]? = some c ∧ r.reads ∧ Admitted to_plural s c ∧
      r ∈ (exec_tool to_plural (s.server c).env c.name c.args).events := by
  obtain ⟨run, hrun, hmem⟩ := h.mem hr
  obtain ⟨⟨c, j⟩, hc, rfl⟩ := List.mem_map.mp hrun
  obtain ⟨e, he, hpair⟩ := List.mem_map.mp hmem
  cases hpair
  exact ⟨c, List.mem_zipIdx_iff_getElem?.mp hc, request_of_call to_plural s c he⟩

/-- The log after a session, in whatever order its calls came to their requests and to their
records. Every request reads, and is sent by a call that was let through, for the tool of this
call. For each call of a tool that was answered there is one record, which says of the call what
the answer said. The whole lines that the file had stay, and the records behind them are all but
those whose append failed or was torn, one more for each torn append, and one more for a file
that ended inside a line. Without these last two exactly the failed ones are missing. -/
theorem a_session_is_in_the_log [FloatText] [FloatRead] (s : Session) (calls : List Call)
    {events : List (Nat × Event)} (h : Interleaving (s.runs to_plural calls) events)
    (text : String) (appends : List (Record × audit.Append))
    (happends : appends.map (fun a => a.1.1) = records (events.map Prod.snd)) :
    (∀ i r, (i, .request r) ∈ events → ∃ c, calls[i]? = some c ∧ r.reads ∧
      Admitted to_plural s c ∧
        r ∈ (exec_tool to_plural (s.server c).env c.name c.args).events) ∧
    ∃ kept lost : List AuditEvent,
      (kept ++ lost).Perm (calls.filterMap (s.record to_plural)) ∧
      (audit.read_back (audit.finished text) ++ kept).Sublist
        (audit.read_back (audit.append_all text appends)) ∧
      lost.length ≤ appends.countP (fun a => a.2 ≠ .whole) +
        appends.countP (fun a => a.2 matches .torn _ _) + (if audit.Clean text then 0 else 1) ∧
      (audit.Clean text → (∀ a ∈ appends, (a.2 matches .torn _ _) = false) →
        audit.read_back (audit.append_all text appends) = audit.read_back text ++ kept ∧
          lost.length = appends.countP (fun a => a.2 ≠ .whole)) := by
  refine ⟨fun i r hr => request_interleaved to_plural h hr, ?_⟩
  obtain ⟨lost, hlost⟩ := (audit.survivors_sublist_records appends text).exists_perm_append
  have hlength := hlost.length_eq
  rw [List.length_map, List.length_append] at hlength
  have hcount := List.length_eq_countP_add_countP (fun a => decide (a.2 = .whole)) (l := appends)
  simp only [decide_eq_true_eq] at hcount
  refine ⟨audit.survivors text appends, lost, ?_, audit.finished_sublist appends text, ?_, ?_⟩
  · rw [happends] at hlost
    exact hlost.symm.trans (records_interleaved to_plural h)
  · have hwhole : appends.countP (fun a => a.2 = .whole) ≤ (audit.survivors text appends).length +
        appends.countP (fun a => a.2 matches .torn _ _) + (if audit.Clean text then 0 else 1) :=
      audit.whole_le_survivors appends text
    simp only [ne_eq] at hcount ⊢
    omega
  · intro hclean hno
    have hkept := audit.survivors_of_no_torn appends hclean hno
    refine ⟨?_, ?_⟩
    · rw [hkept]
      exact audit.read_back_append_all appends hclean hno
    · rw [hkept, List.length_map, ← List.countP_eq_length_filter] at hlength
      simp only [ne_eq] at hcount ⊢
      omega

/-- An agent that declares no version. -/
def agent_session : Session where
  agent_name := "agent"
  context_name := "prod-eu"
  session_id := "mcp-0"
  debug := id
  word := redact.ascii_word
  overflow_checks := false
  declared := none

/-- A diagnosis in the namespace of the agent, and one in a namespace that is not its own. -/
def diagnosis (t : { t : Int // serde.FitsI64 t }) (namespace_ : String) : Call where
  env := default_reader
  log := fun _ => ""
  now_ms := t
  name := "diagnose"
  args := some [("name", .string "web"), ("namespace", .string namespace_)]

def record_of_diagnosis (t : { t : Int // serde.FitsI64 t }) (namespace_ : String)
    (outcome : Outcome) : Record where
  val := {
    timestamp := t, actor := ⟨.Agent, "agent"⟩, context := "prod-eu", operation := .Diagnose
    target := ⟨"", "Pod", namespace_, "web"⟩, outcome, source := .Mcp, session_id := "mcp-0"
    reason := none, on_behalf_of := none }
  property := t.2

theorem two_diagnoses :
    Interleaving (agent_session.runs (· ++ "s")
      [diagnosis ⟨7, by decide⟩ "default", diagnosis ⟨8, by decide⟩ "kube-system"])
    [(0, .request (pod_request "default" "web")),
      (1, .audited (record_of_diagnosis ⟨8, by decide⟩ "kube-system" .Rejected).1),
      (0, .audited (record_of_diagnosis ⟨7, by decide⟩ "default" .Applied).1)] := by
  have h₁ : (agent_session.call (· ++ "s") (diagnosis ⟨7, by decide⟩ "default")).events =
      [.request (pod_request "default" "web"),
        .audited (record_of_diagnosis ⟨7, by decide⟩ "default" .Applied).1] := by decide
  have h₂ : (agent_session.call (· ++ "s") (diagnosis ⟨8, by decide⟩ "kube-system")).events =
      [.audited (record_of_diagnosis ⟨8, by decide⟩ "kube-system" .Rejected).1] := by decide
  rw [Session.runs, List.zipIdx_cons, List.zipIdx_cons, List.zipIdx_nil, List.map_cons,
    List.map_cons, List.map_nil, h₁, h₂]
  refine @Interleaving.step _ [] _ _ _ _ ?_
  refine @Interleaving.step _ [_] [] _ _ _ ?_
  refine @Interleaving.step _ [] _ _ _ _ ?_
  exact .done (by decide)

/-- The refusal is recorded first, and the disk is full when the other record comes. -/
theorem a_full_disk_costs_a_record :
    ∃ kept lost : List AuditEvent,
      (kept ++ lost).Perm ([diagnosis ⟨7, by decide⟩ "default",
        diagnosis ⟨8, by decide⟩ "kube-system"].filterMap (agent_session.record (· ++ "s"))) ∧
      @audit.read_back no_float_read (@audit.append_all no_float_text ""
        [(record_of_diagnosis ⟨8, by decide⟩ "kube-system" .Rejected, .whole),
          (record_of_diagnosis ⟨7, by decide⟩ "default" .Applied,
            .failed "no space left on device")]) =
        @audit.read_back no_float_read "" ++ kept ∧
      lost.length = 1 := by
  obtain ⟨-, kept, lost, hperm, -, -, hclean⟩ := @a_session_is_in_the_log (· ++ "s") no_float_text
    no_float_read agent_session _ _ two_diagnoses ""
    [(record_of_diagnosis ⟨8, by decide⟩ "kube-system" .Rejected, .whole),
      (record_of_diagnosis ⟨7, by decide⟩ "default" .Applied, .failed "no space left on device")]
    (by rfl)
  obtain ⟨hread, hlost⟩ := hclean (by decide) (by decide)
  exact ⟨kept, lost, hperm, hread, hlost⟩

end kaptein_cli.mcp
