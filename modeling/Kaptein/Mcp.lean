-- The agent tools (`mcp.rs`): what a call is checked for before it runs, and
-- the requests that it then sends to the API server.
import Kaptein.Governance
import Kaptein.Requests

open kube serde_json rust_str kaptein_core
open kaptein_core.guardrails (ContextClass gate_write)

namespace kaptein_cli.mcp

/-- What a call depends on: the name of the agent, the class of the context, and
the answers of the API server to the rules review and to each request. -/
structure Env where
  agent_name : String
  context_class : ContextClass
  can : (verb resource group namespace_ : String) → Except String Bool
  api : Api

variable (to_plural : String → String)

/-- A string argument of the call. -/
def arg (args : Option Map) (k : String) : Option String :=
  (args.bind fun m => Map.get m k).bind Value.as_str

def parse_gvk (s : String) : GroupVersionKind :=
  match split '/' s with
  | [kind] => ⟨"", "v1", kind⟩
  | [version, kind] => ⟨"", version, kind⟩
  | [group, version, kind] => ⟨group, version, kind⟩
  | _ => ⟨"", "v1", s⟩

def parse_gvk_parts (s : String) : String × String × String :=
  match split '/' s with
  | [kind] => ("", "v1", kind)
  | [version, kind] => ("", version, kind)
  | [group, version, kind] => (group, version, kind)
  | _ => ("", "v1", s)

def resource_from_kind (kind group : String) : String × String :=
  (plural to_plural ⟨group, "v1", kind⟩, group)

/-! ## The check before the call -/

/-- The permission that a call is checked for. -/
structure Target where
  verb : String
  resource : String
  group : String
  namespace_ : Option String
  deriving DecidableEq

def preflight_target (name : String) (args : Option Map) : Option Target :=
  let namespace_ := arg args "namespace"
  match name with
  | "list_resources" | "describe" | "blast_radius" =>
    (arg args "gvk").map fun gvk =>
      let (group, _, kind) := parse_gvk_parts gvk
      let (plural, group) := resource_from_kind to_plural kind group
      let verb := if name = "list_resources" then "list" else "get"
      { verb, resource := plural, group, namespace_ }
  | "logs" =>
    namespace_.map fun ns =>
      { verb := "get", resource := "pods/log", group := "", namespace_ := some ns }
  | "diagnose" | "explain_pod_failure" | "why_is_job_pending" | "what_changed_between" =>
    some { verb := "get", resource := "pods", group := "", namespace_ := some (namespace_.getD "") }
  | "get_events" => some { verb := "list", resource := "events", group := "", namespace_ }
  | _ => none

/-- The rules review asks about one namespace, `default` for a call that names none. -/
def governance_check (env : Env) (target : Target) : Except String Unit := do
  if target.verb ≠ "get" ∧ target.verb ≠ "list" ∧ target.verb ≠ "watch" then
    match gate_write env.context_class none with
    | .ok () => pure ()
    | .error msg => throw ("governance: " ++ msg)
  let namespace_ := target.namespace_.getD "default"
  match env.can target.verb target.resource target.group namespace_ with
  | .ok true => pure ()
  | .ok false =>
    throw ("governance: agent '" ++ env.agent_name ++ "' is not permitted to " ++ target.verb ++
      " " ++ target.resource ++ " in " ++ namespace_)
  | .error e => throw ("governance: RBAC preflight failed: " ++ e)

def governance (env : Env) (name : String) (args : Option Map) : Except String Unit :=
  match preflight_target to_plural name args with
  | some target => governance_check env target
  | none => .ok ()

/-! ## The call -/

def exec_tool (env : Env) (name : String) (args : Option Map) : Traced Request Unit :=
  match name with
  | "list_resources" => do
    let gvk ← Traced.ok_or (arg args "gvk") "missing 'gvk'"
    discovery_list to_plural env.api (parse_gvk gvk) (arg args "namespace")
  | "describe" => do
    let gvk ← Traced.ok_or (arg args "gvk") "missing 'gvk'"
    let name ← Traced.ok_or (arg args "name") "missing 'name'"
    describe_dynamic to_plural env.api (parse_gvk gvk) (arg args "namespace") name
  | "logs" => do
    let name ← Traced.ok_or (arg args "name") "missing 'name'"
    let namespace_ ← Traced.ok_or (arg args "namespace") "missing 'namespace'"
    pod_logs env.api namespace_ name
  | "get_events" => recent_events (arg args "namespace")
  | "diagnose" => do
    let name ← Traced.ok_or (arg args "name") "missing 'name'"
    let namespace_ ← Traced.ok_or (arg args "namespace") "missing 'namespace'"
    get_pod env.api namespace_ name
  | "explain_pod_failure" => do
    let name ← Traced.ok_or (arg args "name") "missing 'name'"
    let namespace_ ← Traced.ok_or (arg args "namespace") "missing 'namespace'"
    explain_pod_failure env.api namespace_ name
  | "why_is_job_pending" => do
    let name ← Traced.ok_or (arg args "name") "missing 'name'"
    let namespace_ ← Traced.ok_or (arg args "namespace") "missing 'namespace'"
    why_is_job_pending env.api namespace_ name
  | "blast_radius" => do
    let gvk ← Traced.ok_or (arg args "gvk") "missing 'gvk'"
    let name ← Traced.ok_or (arg args "name") "missing 'name'"
    blast_radius to_plural env.api (arg args "namespace") (parse_gvk gvk) name
  | "what_changed_between" => do
    let namespace_ ← Traced.ok_or (arg args "namespace") "missing 'namespace'"
    what_changed_between namespace_
  | other => Traced.fail ("unknown tool: " ++ other)

/-- A call that the governance lets through is executed. -/
def governed_call (env : Env) (name : String) (args : Option Map) : Traced Request Unit := do
  Traced.lift (governance to_plural env name args)
  exec_tool to_plural env name args

/-- The names of the tools that the server advertises. -/
def tools : List String :=
  ["list_resources", "describe", "logs", "get_events", "diagnose", "explain_pod_failure",
    "why_is_job_pending", "blast_radius", "what_changed_between"]

/-- The server is read-only: no call of any tool sends a write. -/
theorem governed_call_reads (env : Env) (name : String) (args : Option Map) :
    OnlyReads (governed_call to_plural env name args) := by
  have ok_or {α : Type} {o : Option α} {msg : String} {f : α → Traced Request Unit}
      (hf : ∀ a, OnlyReads (f a)) : OnlyReads (Traced.ok_or o msg >>= f) :=
    Traced.never_bind (Traced.never_ok_or o msg) hf
  refine Traced.never_bind (Traced.never_lift _) (fun _ => ?_)
  unfold exec_tool
  split
  · exact ok_or fun _ => discovery_list_reads
  · exact ok_or fun _ => ok_or fun _ => describe_dynamic_reads
  · exact ok_or fun _ => ok_or fun _ => pod_logs_reads
  · exact recent_events_reads
  · exact ok_or fun _ => ok_or fun _ => get_pod_reads
  · exact ok_or fun _ => ok_or fun _ => explain_pod_failure_reads
  · exact ok_or fun _ => ok_or fun _ => why_is_job_pending_reads
  · exact ok_or fun _ => ok_or fun _ => blast_radius_reads
  · exact ok_or fun _ => recent_events_reads
  · exact Traced.never_of_no_events rfl

/-! ## What a check covers -/

/-- A permission in one namespace covers a request of its verb and resource in
that namespace. It never covers a request for the whole cluster. -/
def Covers (target : Option Target) (r : Request) : Prop :=
  ∃ t, target = some t ∧ r.verb = t.verb ∧ r.resource = t.resource ∧ r.group = t.group ∧
    r.scope = .Namespaced (t.namespace_.getD "default")

/-- The calls whose requests the check covers: a call that stops at a missing
argument or an unknown name, a read of one kind in a named namespace, a
diagnosis, and a call of two more tools that ends with its first request. -/
def Covered (env : Env) (name : String) (args : Option Map) : Prop :=
  match name with
  | "list_resources" => arg args "gvk" = none ∨ arg args "namespace" ≠ none
  | "describe" => arg args "gvk" = none ∨ arg args "name" = none ∨ arg args "namespace" ≠ none
  | "logs" | "why_is_job_pending" => arg args "name" = none ∨ arg args "namespace" = none
  | "what_changed_between" => arg args "namespace" = none
  | "get_events" => False
  | "explain_pod_failure" =>
    ∀ n ns, arg args "name" = some n → arg args "namespace" = some ns →
      ∃ msg, env.api.answer (pod_request ns n) = .error msg
  | "blast_radius" =>
    ∀ gvk n, arg args "gvk" = some gvk → arg args "name" = some n →
      ∃ ns, arg args "namespace" = some ns ∧ ns ≠ "" ∧
        ∃ msg, env.api.answer (object_request to_plural (parse_gvk gvk) (.Namespaced ns) n) =
          .error msg
  | _ => True

theorem parts_of_gvk (s : String) :
    parse_gvk_parts s = ((parse_gvk s).group, (parse_gvk s).version, (parse_gvk s).kind) := by
  unfold parse_gvk_parts parse_gvk
  split <;> rfl

/-- The check of a tool on one kind: the kind of the call, under its plural. -/
theorem preflight_of_gvk (verb gvk : String) (namespace_ : Option String) :
    (let (group, _, kind) := parse_gvk_parts gvk
      let (plural, group) := resource_from_kind to_plural kind group
      ({ verb, resource := plural, group, namespace_ } : Target)) =
      { verb, resource := plural to_plural (parse_gvk gvk), group := (parse_gvk gvk).group,
        namespace_ } := by
  rw [parts_of_gvk]
  rfl

section Tools

variable (env : Env) (args : Option Map)

/-- Every request of a call of the tool is covered by the check of the call. -/
def AllCovered (name : String) : Prop :=
  ∀ r ∈ (exec_tool to_plural env name args).events,
    Covers (preflight_target to_plural name args) r

variable {to_plural env args}

theorem allCovered_of_none {name : String} (h : (exec_tool to_plural env name args).events = []) :
    AllCovered to_plural env args name := by
  intro r hr
  rw [h] at hr
  cases hr

/-- One request that the check does not cover is enough. -/
theorem not_allCovered {name : String} {r : Request}
    (hr : r ∈ (exec_tool to_plural env name args).events)
    (hno : ¬ Covers (preflight_target to_plural name args) r) :
    ¬ AllCovered to_plural env args name :=
  fun h => hno (h r hr)

theorem covers_same_kind (verb group resource : String) (namespace_ name : Option String) :
    Covers (some { verb, resource, group, namespace_ })
        { verb, group, resource, scope := scope_of namespace_, name } ↔ namespace_ ≠ none := by
  constructor
  · rintro ⟨t, ht, _, _, _, hscope⟩ hns
    subst hns
    cases hscope
  · intro hns
    obtain ⟨ns, rfl⟩ := Option.ne_none_iff_exists'.mp hns
    exact ⟨_, rfl, rfl, rfl, rfl, rfl⟩

theorem list_resources_covered :
    AllCovered to_plural env args "list_resources" ↔
      Covered to_plural env "list_resources" args := by
  change _ ↔ arg args "gvk" = none ∨ arg args "namespace" ≠ none
  cases hg : arg args "gvk" with
  | none =>
    refine iff_of_true (allCovered_of_none ?_) (Or.inl rfl)
    simp only [exec_tool, hg, Traced.ok_or_none, Traced.fail_bind, Traced.fail_events]
  | some gvk =>
    have htarget : preflight_target to_plural "list_resources" args =
        some { verb := "list", resource := plural to_plural (parse_gvk gvk),
               group := (parse_gvk gvk).group, namespace_ := arg args "namespace" } := by
      simp only [preflight_target, hg, Option.map_some, Option.some.injEq]
      exact preflight_of_gvk to_plural "list" gvk _
    have hexec : (exec_tool to_plural env "list_resources" args).events =
        [{ verb := "list", group := (parse_gvk gvk).group,
           resource := plural to_plural (parse_gvk gvk),
           scope := scope_of (arg args "namespace") }] := by
      simp only [exec_tool, hg, Traced.ok_or_some, Traced.pure_bind]
      rfl
    unfold AllCovered
    rw [hexec, htarget, List.forall_mem_singleton, covers_same_kind]
    simp

theorem describe_covered :
    AllCovered to_plural env args "describe" ↔ Covered to_plural env "describe" args := by
  change _ ↔ arg args "gvk" = none ∨ arg args "name" = none ∨ arg args "namespace" ≠ none
  cases hg : arg args "gvk" with
  | none =>
    refine iff_of_true (allCovered_of_none ?_) (Or.inl rfl)
    simp only [exec_tool, hg, Traced.ok_or_none, Traced.fail_bind, Traced.fail_events]
  | some gvk =>
    cases hn : arg args "name" with
    | none =>
      refine iff_of_true (allCovered_of_none ?_) (Or.inr (Or.inl rfl))
      simp only [exec_tool, hg, hn, Traced.ok_or_some, Traced.pure_bind, Traced.ok_or_none,
        Traced.fail_bind, Traced.fail_events]
    | some name =>
      have htarget : preflight_target to_plural "describe" args =
          some { verb := "get", resource := plural to_plural (parse_gvk gvk),
                 group := (parse_gvk gvk).group, namespace_ := arg args "namespace" } := by
        simp only [preflight_target, hg, Option.map_some, Option.some.injEq]
        exact preflight_of_gvk to_plural "get" gvk _
      have hexec : (exec_tool to_plural env "describe" args).events =
          [{ verb := "get", group := (parse_gvk gvk).group,
             resource := plural to_plural (parse_gvk gvk),
             scope := scope_of (arg args "namespace"), name := some name }] := by
        simp only [exec_tool, hg, hn, Traced.ok_or_some, Traced.pure_bind]
        rfl
      unfold AllCovered
      rw [hexec, htarget, List.forall_mem_singleton, covers_same_kind]
      simp

/-- A tool on a named object of a named namespace stops where one of them is missing. -/
theorem stops_without_names {name : String} (run : String → String → Traced Request Unit)
    (hexec : exec_tool to_plural env name args = (do
      let n ← Traced.ok_or (arg args "name") "missing 'name'"
      let ns ← Traced.ok_or (arg args "namespace") "missing 'namespace'"
      run ns n)) :
    (arg args "name" = none ∨ arg args "namespace" = none →
        (exec_tool to_plural env name args).events = []) ∧
      ∀ n ns, arg args "name" = some n → arg args "namespace" = some ns →
        exec_tool to_plural env name args = run ns n := by
  rw [hexec]
  constructor
  · rintro (hn | hns)
    · simp only [hn, Traced.ok_or_none, Traced.fail_bind, Traced.fail_events]
    · cases hn : arg args "name" with
      | none => simp only [Traced.ok_or_none, Traced.fail_bind, Traced.fail_events]
      | some n =>
        simp only [hns, Traced.ok_or_some, Traced.pure_bind, Traced.ok_or_none, Traced.fail_bind,
          Traced.fail_events]
  · intro n ns hn hns
    simp only [hn, hns, Traced.ok_or_some, Traced.pure_bind]

/-- Such a tool whose first request is not covered is covered only where it stops. -/
theorem covered_only_without_names {name : String} (run : String → String → Traced Request Unit)
    (hexec : exec_tool to_plural env name args = (do
      let n ← Traced.ok_or (arg args "name") "missing 'name'"
      let ns ← Traced.ok_or (arg args "namespace") "missing 'namespace'"
      run ns n))
    (hfirst : ∀ n ns, arg args "namespace" = some ns → ∃ r ∈ (run ns n).events,
      ¬ Covers (preflight_target to_plural name args) r) :
    AllCovered to_plural env args name ↔
      arg args "name" = none ∨ arg args "namespace" = none := by
  obtain ⟨hstop, hrun⟩ := stops_without_names run hexec
  constructor
  · intro h
    cases hn : arg args "name" with
    | none => exact Or.inl rfl
    | some n =>
      cases hns : arg args "namespace" with
      | none => exact Or.inr rfl
      | some ns =>
        obtain ⟨r, hr, hno⟩ := hfirst n ns hns
        rw [← hrun n ns hn hns] at hr
        exact absurd h (not_allCovered hr hno)
  · intro h
    exact allCovered_of_none (hstop h)

theorem logs_covered :
    AllCovered to_plural env args "logs" ↔ Covered to_plural env "logs" args := by
  refine covered_only_without_names (fun ns n => pod_logs env.api ns n) rfl ?_
  intro n ns hns
  refine ⟨_, mem_send_bind env.api _ _, ?_⟩
  rintro ⟨t, ht, _, hres, _⟩
  simp only [preflight_target, hns, Option.map_some, Option.some.injEq] at ht
  subst ht
  have hne : "pods" ≠ "pods/log" := by decide
  exact hne hres

theorem why_is_job_pending_covered :
    AllCovered to_plural env args "why_is_job_pending" ↔
      Covered to_plural env "why_is_job_pending" args := by
  refine covered_only_without_names (fun ns n => why_is_job_pending env.api ns n) rfl ?_
  intro n ns hns
  refine ⟨_, mem_send_bind env.api _ _, ?_⟩
  rintro ⟨t, ht, _, hres, _⟩
  simp only [preflight_target, Option.some.injEq] at ht
  subst ht
  have hne : "jobs" ≠ "pods" := by decide
  exact hne hres

theorem core_group_ne : ("" : String) ≠ "events.k8s.io" := by decide

/-- The second list of events has a group that no check of a tool names. -/
theorem recent_events_not_covered (namespace_ : Option String) {target : Option Target}
    (h : ∀ t, target = some t → t.group ≠ "events.k8s.io") :
    ∃ r ∈ (recent_events namespace_).events, ¬ Covers target r := by
  refine ⟨_, List.mem_cons_of_mem _ List.mem_cons_self, ?_⟩
  rintro ⟨t, ht, _, _, hgroup, _⟩
  exact h t ht hgroup.symm

theorem get_events_covered :
    AllCovered to_plural env args "get_events" ↔ Covered to_plural env "get_events" args := by
  refine iff_of_false ?_ id
  have hgroup : ∀ t, preflight_target to_plural "get_events" args = some t →
      t.group ≠ "events.k8s.io" := by
    intro t ht
    cases ht
    exact core_group_ne
  obtain ⟨r, hr, hno⟩ := recent_events_not_covered (arg args "namespace") hgroup
  exact not_allCovered hr hno

theorem what_changed_between_covered :
    AllCovered to_plural env args "what_changed_between" ↔
      Covered to_plural env "what_changed_between" args := by
  change _ ↔ arg args "namespace" = none
  cases hns : arg args "namespace" with
  | none =>
    refine iff_of_true (allCovered_of_none ?_) rfl
    simp only [exec_tool, hns, Traced.ok_or_none, Traced.fail_bind, Traced.fail_events]
  | some ns =>
    refine iff_of_false ?_ (by simp)
    have hgroup : ∀ t, preflight_target to_plural "what_changed_between" args = some t →
        t.group ≠ "events.k8s.io" := by
      intro t ht
      cases ht
      exact core_group_ne
    obtain ⟨r, hr, hno⟩ := recent_events_not_covered (some ns) hgroup
    refine not_allCovered ?_ hno
    simp only [exec_tool, hns, Traced.ok_or_some, Traced.pure_bind]
    exact hr

/-- The pod of a namespace is what the check of a pod tool asks for. -/
theorem covers_pod_request {target : Option Target} {n ns : String}
    (h : target = some { verb := "get", resource := "pods", group := "", namespace_ := some ns }) :
    Covers target (pod_request ns n) :=
  ⟨_, h, rfl, rfl, rfl, rfl⟩

theorem diagnose_covered :
    AllCovered to_plural env args "diagnose" ↔ Covered to_plural env "diagnose" args := by
  refine iff_of_true ?_ trivial
  obtain ⟨hstop, hrun⟩ : _ ∧ ∀ n ns, _ → _ →
      exec_tool to_plural env "diagnose" args = get_pod env.api ns n :=
    stops_without_names (fun ns n => get_pod env.api ns n) rfl
  cases hn : arg args "name" with
  | none => exact allCovered_of_none (hstop (Or.inl hn))
  | some n =>
    cases hns : arg args "namespace" with
    | none => exact allCovered_of_none (hstop (Or.inr hns))
    | some ns =>
      intro r hr
      rw [hrun n ns hn hns, get_pod, send_events, List.mem_singleton] at hr
      subst hr
      apply covers_pod_request
      simp only [preflight_target, hns, Option.getD_some]

theorem explain_pod_failure_covered :
    AllCovered to_plural env args "explain_pod_failure" ↔
      Covered to_plural env "explain_pod_failure" args := by
  obtain ⟨hstop, hrun⟩ : _ ∧ ∀ n ns, _ → _ →
      exec_tool to_plural env "explain_pod_failure" args = explain_pod_failure env.api ns n :=
    stops_without_names (fun ns n => explain_pod_failure env.api ns n) rfl
  constructor
  · intro h n ns hn hns
    cases hget : env.api.answer (pod_request ns n) with
    | error msg => exact ⟨msg, rfl⟩
    | ok u =>
      have hgroup : ∀ t, preflight_target to_plural "explain_pod_failure" args = some t →
          t.group ≠ "events.k8s.io" := by
        intro t ht
        cases ht
        exact core_group_ne
      obtain ⟨r, hr, hno⟩ := recent_events_not_covered (some ns) hgroup
      refine absurd h (not_allCovered ?_ hno)
      rw [hrun n ns hn hns, explain_pod_failure, get_pod, send_bind_ok hget]
      exact List.mem_cons_of_mem _ hr
  · intro h
    cases hn : arg args "name" with
    | none => exact allCovered_of_none (hstop (Or.inl hn))
    | some n =>
      cases hns : arg args "namespace" with
      | none => exact allCovered_of_none (hstop (Or.inr hns))
      | some ns =>
        obtain ⟨msg, hget⟩ := h n ns hn hns
        intro r hr
        rw [hrun n ns hn hns, explain_pod_failure, get_pod, send_bind_error hget,
          List.mem_singleton] at hr
        subst hr
        apply covers_pod_request
        simp only [preflight_target, hns, Option.getD_some]

variable (to_plural env) in
/-- The replica sets are listed, and no check of a single object covers a list. -/
theorem list_dependents_not_covered (namespace_ : Option String) {target : Option Target}
    (h : ∀ t, target = some t → t.verb = "get") :
    ∃ r ∈ (list_dependents to_plural env.api namespace_).events, ¬ Covers target r := by
  refine ⟨_, (Traced.prefix_bind _ _).subset List.mem_cons_self, ?_⟩
  rintro ⟨t, ht, hverb, _⟩
  rw [h t ht] at hverb
  have hverbs : "list" ≠ "get" := by decide
  exact hverbs hverb

theorem blast_radius_covered :
    AllCovered to_plural env args "blast_radius" ↔
      Covered to_plural env "blast_radius" args := by
  cases hg : arg args "gvk" with
  | none =>
    refine iff_of_true (allCovered_of_none ?_) ?_
    · simp only [exec_tool, hg, Traced.ok_or_none, Traced.fail_bind, Traced.fail_events]
    · intro gvk n hgvk
      rw [hg] at hgvk
      cases hgvk
  | some gvk =>
    cases hn : arg args "name" with
    | none =>
      refine iff_of_true (allCovered_of_none ?_) ?_
      · simp only [exec_tool, hg, hn, Traced.ok_or_some, Traced.pure_bind, Traced.ok_or_none,
          Traced.fail_bind, Traced.fail_events]
      · intro gvk' n _ hname
        rw [hn] at hname
        cases hname
    | some name =>
      have hexec : exec_tool to_plural env "blast_radius" args =
          blast_radius to_plural env.api (arg args "namespace") (parse_gvk gvk) name := by
        simp only [exec_tool, hg, hn, Traced.ok_or_some, Traced.pure_bind]
      have htarget : preflight_target to_plural "blast_radius" args =
          some { verb := "get", resource := plural to_plural (parse_gvk gvk),
                 group := (parse_gvk gvk).group, namespace_ := arg args "namespace" } := by
        simp only [preflight_target, hg, Option.map_some, Option.some.injEq]
        exact preflight_of_gvk to_plural "get" gvk _
      constructor
      · intro h gvk' n hgvk' hn'
        rw [hg, Option.some.injEq] at hgvk'
        rw [hn, Option.some.injEq] at hn'
        subst hgvk' hn'
        -- The first request is covered, so the call names a namespace.
        obtain ⟨t, ht, _, _, _, hscope⟩ := h _ (by rw [hexec]; exact mem_send_bind env.api _ _)
        rw [htarget, Option.some.injEq] at ht
        subst ht
        have hns : ∃ ns, arg args "namespace" = some ns ∧ ns ≠ "" := by
          cases hns : arg args "namespace" with
          | none =>
            rw [hns] at hscope
            cases hscope
          | some ns =>
            refine ⟨ns, rfl, ?_⟩
            intro hempty
            simp only [hns, target_scope, if_pos hempty] at hscope
            cases hscope
        obtain ⟨ns, hns, hne⟩ := hns
        refine ⟨ns, hns, hne, ?_⟩
        -- What follows an answer is a list, and the check is for a read.
        cases hget :
            env.api.answer (object_request to_plural (parse_gvk gvk) (.Namespaced ns) name) with
        | error msg => exact ⟨msg, rfl⟩
        | ok u =>
          have hverb : ∀ t, preflight_target to_plural "blast_radius" args = some t →
              t.verb = "get" := by
            intro t ht
            rw [htarget, Option.some.injEq] at ht
            subst ht
            rfl
          obtain ⟨r, hr, hno⟩ := list_dependents_not_covered to_plural env (some ns) hverb
          refine absurd h (not_allCovered ?_ hno)
          rw [hexec, hns, blast_radius_namespaced hne, send_bind_ok hget]
          exact List.mem_cons_of_mem _ hr
      · intro h
        obtain ⟨ns, hns, hne, msg, hget⟩ := h gvk name hg hn
        intro r hr
        rw [hexec, hns, blast_radius_namespaced hne, send_bind_error hget,
          List.mem_singleton] at hr
        rw [htarget, hns, hr]
        exact ⟨_, rfl, rfl, rfl, rfl, rfl⟩

theorem unknown_tool_covered {name : String}
    (h : ∀ k ∈ tools, name ≠ k) :
    AllCovered to_plural env args name ↔ Covered to_plural env name args := by
  simp only [tools, List.forall_mem_cons] at h
  obtain ⟨h1, h2, h3, h4, h5, h6, h7, h8, h9, _⟩ := h
  refine iff_of_true (allCovered_of_none ?_) ?_
  · unfold exec_tool
    split
    all_goals first | rfl | contradiction
  · unfold Covered
    split
    all_goals trivial

/-- For every tool the check covers the requests exactly in the cases of `Covered`. -/
theorem allCovered_iff (name : String) :
    AllCovered to_plural env args name ↔ Covered to_plural env name args := by
  by_cases h : name ∈ tools
  · simp only [tools, List.mem_cons, List.not_mem_nil, or_false] at h
    rcases h with rfl | rfl | rfl | rfl | rfl | rfl | rfl | rfl | rfl
    · exact list_resources_covered
    · exact describe_covered
    · exact logs_covered
    · exact get_events_covered
    · exact diagnose_covered
    · exact explain_pod_failure_covered
    · exact why_is_job_pending_covered
    · exact blast_radius_covered
    · exact what_changed_between_covered
  · refine unknown_tool_covered ?_
    intro k hk heq
    exact h (heq ▸ hk)

end Tools

/-- The requests of a call that was let through are covered by its check exactly
in the cases of `Covered`. -/
theorem preflight_covers_the_call_iff (env : Env) (name : String) (args : Option Map)
    (h : governance to_plural env name args = .ok ()) :
    (∀ r ∈ (governed_call to_plural env name args).events,
        Covers (preflight_target to_plural name args) r) ↔
      Covered to_plural env name args := by
  have hcall : (governed_call to_plural env name args).events =
      (exec_tool to_plural env name args).events := by
    unfold governed_call
    rw [h]
    rfl
  rw [hcall]
  exact allCovered_iff name

/-- An agent that may read in the namespace `default` only, at a server that answers. -/
def default_reader : Env where
  agent_name := "agent"
  context_class := .Unknown
  can := fun _ _ _ ns => .ok (ns == "default")
  api := {
    answer := fun _ => .ok (), containers := fun _ => [], selected := [], tokens := [],
    watches := [] }

theorem a_diagnosis_is_covered :
    Covers (preflight_target (· ++ "s") "diagnose"
        (some [("name", .string "web"), ("namespace", .string "default")]))
      (pod_request "default" "web") :=
  (preflight_covers_the_call_iff (· ++ "s") default_reader "diagnose"
    (some [("name", .string "web"), ("namespace", .string "default")]) (by decide)).mpr trivial
    (pod_request "default" "web") (by decide)

/-- The call asks for all secrets of the cluster, and was checked for those of
the namespace `default`. -/
theorem a_list_without_a_namespace_is_cluster_wide :
    ¬ ∀ (to_plural : String → String) (env : Env) (name : String) (args : Option Map),
      ∀ r ∈ (governed_call to_plural env name args).events,
        Covers (preflight_target to_plural name args) r := by
  intro h
  have hr : { verb := "list", group := "", resource := "secrets", scope := .ClusterWide } ∈
      (governed_call (· ++ "s") default_reader "list_resources"
        (some [("gvk", .string "v1/Secret")])).events := by decide
  obtain ⟨t, ht, _, _, _, hscope⟩ := h (· ++ "s") default_reader "list_resources" _ _ hr
  cases hscope

end kaptein_cli.mcp
