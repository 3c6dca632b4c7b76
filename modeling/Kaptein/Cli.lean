-- The command line (`main.rs`): what each command asks for before it acts,
-- what it does in the cluster, and what it records.
import Kaptein.Mcp
import Kaptein.Redact
import Kaptein.Writes

open kube serde_json rust_str kaptein_core
open kaptein_core.guardrails (ContextClass Guardrails Regex)
open kaptein_viewmodel.audit

namespace kaptein_cli

inductive ExtensionCommand where
  | List (dir : String)
  | Validate (dir : String)
  | Enable (id : String)
  | Disable (id : String)

/-- A parsed command line, with the arguments that decide what the command does
in the cluster. How a read is sorted, filtered and printed is left out, and so is what a write
prints behind its record. -/
inductive Command where
  | Get (gvk : String) (namespace_ : Option String) (metadata : Bool) (context lens : Option String)
  | Can (verb resource group namespace_ : String)
  | Preflight (resource group namespace_ : String)
  | Context
  | Contexts
  | ConfigValidate
  | ConfigExplainContext (context : String)
  | ViewdefValidate (file : String)
  | ViewdefSchema
  | Completions (shell : String)
  | ViewdefRender (file resource : String)
  | Extension (command : ExtensionCommand)
  | Lenses (dir : String)
  | Diagnose (name namespace_ : String) (context : Option String)
  | BlastRadius (gvk name : String) (namespace_ context : Option String)
  | WhyJobPending (name namespace_ : String) (context : Option String)
  | Describe (gvk name : String) (namespace_ context : Option String)
  | Logs (name : Option String) (namespace_ : String) (regex : Option String)
      (follow json : Bool) (context : Option String)
  | Mcp
  | Tui
  | Events (namespace_ context : Option String)
  | Overview (context : Option String)
  | Watch (gvk : String) (namespace_ : Option String) (max : Nat) (context : Option String)
  | WatchStore (gvk : String) (namespace_ : Option String) (max : Nat)
  | Apply (file : String) (context : Option String)
  | Edit (gvk name : String) (namespace_ context : Option String)
  | PortForward (pod namespace_ : String) (port local_ : Nat) (name : Option String)
  | PortForwardList
  | PortForwardRemove (name : String)
  | Exec (pod namespace_ : String) (container : Option String) (command : List String)
      (tty confirm : Bool) (break_glass : Option String)
  | Delete (gvk name : String) (namespace_ : Option String) (cascade : String)
      (confirm : Bool) (break_glass : Option String)
  | Scale (gvk name namespace_ : String) (replicas : Int) (confirm : Bool)
      (break_glass : Option String)
  | Restart (gvk name namespace_ : String) (confirm : Bool) (break_glass : Option String)
  | Cordon (name : String) (confirm : Bool) (break_glass : Option String)
  | Uncordon (name : String) (confirm : Bool) (break_glass : Option String)
  | Evict (name namespace_ : String) (confirm : Bool) (break_glass : Option String)
  | Drain (name : String)
  | Krew (tool : String) (args : List String)
  | DebugContainers (pod namespace_ : String)
  | Debug (pod namespace_ name image : String) (command : List String) (confirm : Bool)
      (break_glass : Option String)

/-- The reason that a command gives for a write, where it takes one. -/
def Command.break_glass : Command → Option String
  | .Exec _ _ _ _ _ _ break_glass | .Delete _ _ _ _ _ break_glass
  | .Scale _ _ _ _ _ break_glass | .Restart _ _ _ _ break_glass | .Cordon _ _ break_glass
  | .Uncordon _ _ break_glass | .Evict _ _ _ break_glass | .Debug _ _ _ _ _ _ break_glass =>
    break_glass
  | _ => none

/-- A write that was confirmed. -/
def Command.confirmed : Command → Bool
  | .Exec _ _ _ _ _ confirm _ | .Delete _ _ _ _ confirm _ | .Scale _ _ _ _ confirm _
  | .Restart _ _ _ confirm _ | .Cordon _ confirm _ | .Uncordon _ confirm _ | .Evict _ _ confirm _
  | .Debug _ _ _ _ _ confirm _ => confirm
  | _ => false

/-- What a run of the program finds around it. -/
structure Env where
  to_plural : String → String
  regex : Regex
  guardrails : Guardrails
  current_context_name : Except String String
  user : Option String
  now_ms : Int
  client : Except String Unit
  client_for_context : String → Except String Unit
  cluster : Cluster
  -- The files, the terminal and the tools that a command uses.
  lens_file : String → Except String Unit
  local_command : Command → Except String Unit
  /-- `print!`, which panics where the standard output does not take the text. -/
  print : String → Except String Unit
  read_manifest : String → Except String String
  edited : Except String (Option String)
  forwards : ForwardManager
  persist : ForwardManager → Except String Unit
  bind : Nat → Except String Nat
  ctrl_c : Except String Unit
  external : (binary : String) → (args : List String) → Except String Unit
  -- What the interactive commands are asked for until they end.
  listed : Nat
  tui_session : List { r : Request // r.reads }
  mcp_env : mcp.Env
  mcp_session : List (String × Option Map)

inductive Event where
  | gate_ok (class_ : ContextClass) (reason : Option String)
  | act (a : Act)
  | audited (event : AuditEvent)
  | ran_tool (binary : String) (args : List String)
  deriving DecidableEq

def core {α : Type} (x : Traced Act α) : Traced Event α := x.map_events .act

def reads (x : Traced Request Unit) : Traced Event Unit := core (reading x)

/-- An invalid kind ends the process with code 2. -/
def parse_gvk (s : String) : Traced Event GroupVersionKind :=
  match split '/' s with
  | [kind] => pure ⟨"", "v1", kind⟩
  | [version, kind] => pure ⟨"", version, kind⟩
  | [group, version, kind] => pure ⟨group, version, kind⟩
  | _ => Traced.fail ("invalid gvk: " ++ s)

section Run

variable (env : Env)

def gate_write (break_glass : Option String) : Traced Event Unit := do
  let ctx ← Traced.lift env.current_context_name
  let class_ := env.guardrails.classify env.regex ctx
  Traced.lift (guardrails.gate_write class_ break_glass)
  Traced.emit (.gate_ok class_ break_glass)

/-- What the file of the log answers does not reach the command. -/
def audit_write (operation : Operation) (kind namespace_ name : String) (outcome : Outcome)
    (break_glass : Option String) : Traced Event Unit :=
  Traced.emit (.audited {
    timestamp := env.now_ms
    actor := { kind := .Human, name := env.user.getD "human" }
    context := match env.current_context_name with
      | .ok ctx => ctx
      | .error _ => ""
    operation
    target := { group := "", kind, namespace_, name }
    outcome
    source := .Tui
    session_id := "cli"
    reason := break_glass
    on_behalf_of := none })

/-- A command with `--context` builds another client. -/
def client_of (context : Option String) : Traced Event Unit :=
  match context with
  | some ctx => Traced.lift (env.client_for_context ctx)
  | none => pure ()

def regex_new (regex : Option String) : Except String Unit :=
  match regex with
  | some p => if (env.regex p).isSome then .ok () else .error "invalid regex"
  | none => .ok ()

def run_tool (binary : String) (args : List String) : Traced Event Unit := do
  Traced.emit (.ran_tool binary args)
  Traced.lift (env.external binary args)

/-! ## The commands with a body of their own -/

def get (gvk : String) (namespace_ : Option String) (metadata : Bool)
    (context lens : Option String) : Traced Event Unit := do
  let gvk ← parse_gvk gvk
  client_of env context
  match lens with
  | some lens_file => do
    Traced.lift (env.lens_file lens_file)
    reads (discovery_list env.to_plural env.cluster.api gvk namespace_)
  | none =>
    if metadata then reads (list_pages env.to_plural env.cluster.api gvk namespace_)
    else reads (discovery_list env.to_plural env.cluster.api gvk namespace_)

def logs (name : Option String) (namespace_ : String) (regex : Option String)
    (follow json : Bool) (context : Option String) : Traced Event Unit := do
  client_of env context
  match name with
  | some pod_name =>
    if json then do
      Traced.lift (regex_new env regex)
      reads (pod_logs env.cluster.api namespace_ pod_name)
    else if follow then do
      -- The filter is compiled before the stream is first polled.
      Traced.lift (regex_new env regex)
      reads (follow_logs namespace_ pod_name)
    else do
      reads (pod_logs env.cluster.api namespace_ pod_name)
      Traced.lift (regex_new env regex)
  | none => do
    Traced.when json (Traced.lift (regex_new env regex))
    reads (multi_pod_logs env.cluster.api namespace_ (regex_new env regex))

/-- The edited document is only ever sent as a dry run. -/
def edit_in_editor (gvk : GroupVersionKind) (namespace_ : Option String) (name : String) :
    Traced Event Unit := do
  reads (describe_dynamic env.to_plural env.cluster.api gvk namespace_ name)
  Traced.when (redact.is_secret_kind gvk.kind)
    (audit_write env .SecretViewed gvk.kind (namespace_.getD "") name .Applied none)
  let edited ← Traced.lift env.edited
  match edited with
  | some manifest => core (dry_run_apply_patch env.cluster manifest)
  | none => pure ()

/-- A forward with a name is kept in the file of the manager. -/
def keep_forward (pod namespace_ : String) (port local_ : Nat) (name : Option String) :
    Except String Unit :=
  match name with
  | some forward_name =>
    let spec : ForwardSpec :=
      { name := forward_name, namespace_, pod, target_port := port, local_port := local_ }
    env.persist (env.forwards.upsert spec)
  | none => .ok ()

/-- The listener is bound, the forward is recorded, and it is served until the
process is told to stop. -/
def port_forward (pod namespace_ : String) (port local_ : Nat) (name : Option String) :
    Traced Event Unit := do
  Traced.lift (keep_forward env pod namespace_ port local_ name)
  let _ ← Traced.lift (env.bind local_)
  audit_write env .PortForward "Pod" namespace_ pod .Applied none
  core (serve env.cluster namespace_ pod port)
  Traced.lift env.ctrl_c

/-- The record names the pod of the spec that is removed. -/
def port_forward_remove (name : String) : Traced Event Unit := do
  Traced.lift (env.persist (env.forwards.remove name))
  match env.forwards.find? (fun s => s.name = name) with
  | some spec => audit_write env .PortForward "Pod" spec.namespace_ spec.pod .Applied none
  | none => pure ()

def krew (tool : String) (args : List String) : Traced Event Unit :=
  match to_ascii_lowercase tool with
  | "krew" =>
    -- A list of plugins that fails is an empty list.
    if args = [] then Traced.emit (.ran_tool "kubectl" ["krew", "list"])
    else run_tool env "kubectl" ("krew" :: args)
  | "kustomize" => run_tool env "kustomize" args
  | "helm" => run_tool env "helm" args
  | other =>
    Traced.fail ("unknown external tool '" ++ other ++ "' (supported: krew, kustomize, helm)")

def exec_in_pod (pod namespace_ : String) (container : Option String) (command : List String)
    (tty : Bool) : Traced Event Unit :=
  if tty then core (exec_tty env.cluster namespace_ pod command container)
  else do
    let output ← core (exec env.cluster namespace_ pod command container)
    Traced.lift (env.print output)

def audit_outcome (applied : Bool) : Outcome := if applied then .Applied else .DryRun

end Run

def run (env : Env) (command : Command) : Traced Event Unit := do
  Traced.lift env.client
  match command with
  | .Get gvk namespace_ metadata context lens => get env gvk namespace_ metadata context lens
  | .Can .. | .Preflight .. => reads (rules_review env.cluster.api)
  | .Context | .Contexts | .ConfigValidate | .ConfigExplainContext _ | .ViewdefValidate _
  | .ViewdefSchema | .Completions _ | .ViewdefRender .. | .Extension _ | .Lenses _
  | .PortForwardList => Traced.lift (env.local_command command)
  | .Diagnose name namespace_ context => do
    client_of env context
    reads (get_pod env.cluster.api namespace_ name)
  | .BlastRadius gvk name namespace_ context => do
    let gvk ← parse_gvk gvk
    client_of env context
    reads (blast_radius env.to_plural env.cluster.api namespace_ gvk name)
  | .WhyJobPending name namespace_ context => do
    client_of env context
    reads (why_is_job_pending env.cluster.api namespace_ name)
  | .Describe gvk name namespace_ context => do
    let gvk ← parse_gvk gvk
    client_of env context
    reads (describe_dynamic env.to_plural env.cluster.api gvk namespace_ name)
  | .Logs name namespace_ regex follow json context =>
    logs env name namespace_ regex follow json context
  | .Mcp =>
    env.mcp_session.forM fun call =>
      -- A failed call is answered to the client, and the server goes on.
      Traced.attempt (reads (mcp.governed_call env.to_plural env.mcp_env call.1 call.2))
  | .Tui => reads (env.tui_session.forM fun r => try_send r.val)
  | .Events namespace_ context => do
    client_of env context
    reads (recent_events namespace_)
  | .Overview context => do
    client_of env context
    reads (snapshot_into_ring env.to_plural ⟨"", "v1", "Pod"⟩ none)
    reads (overview_with_health none)
  | .Watch gvk namespace_ max context => do
    client_of env context
    let gvk ← parse_gvk gvk
    reads (watch_into_ring env.to_plural env.cluster.api gvk namespace_ env.listed max)
  | .WatchStore gvk namespace_ max => do
    let gvk ← parse_gvk gvk
    reads (run_informer env.to_plural env.cluster.api gvk namespace_ max)
  | .Apply file context => do
    client_of env context
    let manifest ← Traced.lift (env.read_manifest file)
    core (dry_run_apply env.cluster manifest)
  | .Edit gvk name namespace_ context => do
    client_of env context
    let gvk ← parse_gvk gvk
    edit_in_editor env gvk namespace_ name
  | .PortForward pod namespace_ port local_ name =>
    port_forward env pod namespace_ port local_ name
  | .PortForwardRemove name => port_forward_remove env name
  | .Exec pod namespace_ container command tty confirm break_glass => do
    Traced.ensure confirm
      "exec has no dry-run; re-run with --confirm to actually run the command"
    gate_write env break_glass
    exec_in_pod env pod namespace_ container command tty
    audit_write env .Exec "Pod" namespace_ pod .Applied break_glass
  | .Delete gvk name namespace_ cascade confirm break_glass => do
    Traced.when confirm (gate_write env break_glass)
    let gvk ← parse_gvk gvk
    let policy := parse_propagation cascade
    let outcome ← core (delete env.cluster gvk name namespace_ policy confirm)
    audit_write env .Delete gvk.kind (namespace_.getD "") name (audit_outcome outcome.deleted)
      break_glass
  | .Scale gvk name namespace_ replicas confirm break_glass => do
    Traced.when confirm (gate_write env break_glass)
    let gvk ← parse_gvk gvk
    let outcome ← core (scale env.cluster gvk name (some namespace_) replicas confirm)
    audit_write env .Scale gvk.kind namespace_ name (audit_outcome outcome.scaled) break_glass
  | .Restart gvk name namespace_ confirm break_glass => do
    Traced.ensure confirm "restart has no dry-run; re-run with --confirm to actually restart"
    gate_write env break_glass
    let gvk ← parse_gvk gvk
    let _ ← core (restart env.cluster gvk name namespace_)
    audit_write env .Restart gvk.kind namespace_ name .Applied break_glass
  | .Cordon name confirm break_glass => do
    Traced.when confirm (gate_write env break_glass)
    let _ ← core (cordon env.cluster name confirm)
    Traced.when confirm (audit_write env .Cordon "Node" "" name .Applied break_glass)
  | .Uncordon name confirm break_glass => do
    Traced.when confirm (gate_write env break_glass)
    let _ ← core (uncordon env.cluster name confirm)
    Traced.when confirm (audit_write env .Cordon "Node" "" name .Applied break_glass)
  | .Evict name namespace_ confirm break_glass => do
    Traced.when confirm (gate_write env break_glass)
    let _ ← core (evict env.cluster namespace_ name confirm)
    Traced.when confirm (audit_write env .Evict "Pod" namespace_ name .Applied break_glass)
  | .Drain _ => reads (list_pods env.cluster.api none)
  | .Krew tool args => krew env tool args
  | .DebugContainers pod namespace_ =>
    core (get_ephemeral_containers env.cluster namespace_ pod)
  | .Debug pod namespace_ name image command confirm break_glass => do
    Traced.when confirm (gate_write env break_glass)
    let _ ← core (add env.cluster namespace_ pod name image command confirm)
    Traced.when confirm
      (audit_write env .EphemeralAttach "Pod" namespace_ pod .Applied break_glass)

/-! ## The gate comes first -/

def Event.governed : Event → Prop
  | .act a => a.governed
  | _ => False

/-- The gate has let a write through, for the class of the current context and
the reason that was given. -/
def Event.opens (env : Env) (reason : Option String) (e : Event) : Prop :=
  ∃ ctx, env.current_context_name = .ok ctx ∧
    guardrails.gate_write (env.guardrails.classify env.regex ctx) reason = .ok () ∧
    e = .gate_ok (env.guardrails.classify env.regex ctx) reason

/-- Before each governed operation of the run the gate has let a write through. -/
def Gated (env : Env) (reason : Option String) {α : Type} (x : Traced Event α) : Prop :=
  Traced.Preceded (Event.opens env reason) Event.governed x

/-- A part of a run that performs nothing governed. -/
abbrev Harmless {α : Type} (x : Traced Event α) : Prop := Traced.Never Event.governed x

section Harmless

variable {env : Env} {α : Type}

theorem core_harmless {x : Traced Act α} (h : Ungoverned x) : Harmless (core x) :=
  Traced.never_map_events.mpr h

theorem reads_harmless {x : Traced Request Unit} (h : OnlyReads x) : Harmless (reads x) :=
  core_harmless (reading_ungoverned h)

theorem parse_gvk_harmless {s : String} : Harmless (parse_gvk s) := by
  unfold parse_gvk
  split <;> exact Traced.never_of_no_events rfl

theorem client_of_harmless {context : Option String} : Harmless (client_of env context) := by
  cases context <;> exact Traced.never_of_no_events rfl

theorem audit_write_harmless {operation : Operation} {kind ns name : String} {outcome : Outcome}
    {reason : Option String} : Harmless (audit_write env operation kind ns name outcome reason) :=
  Traced.never_emit id

theorem gate_write_harmless (reason : Option String) : Harmless (gate_write env reason) := by
  refine Traced.never_bind (Traced.never_lift _) (fun _ => ?_)
  exact Traced.never_bind (Traced.never_lift _) (fun _ => Traced.never_emit id)

theorem get_harmless {gvk : String} {namespace_ : Option String} {metadata : Bool}
    {context lens : Option String} : Harmless (get env gvk namespace_ metadata context lens) := by
  refine Traced.never_bind parse_gvk_harmless (fun _ => ?_)
  refine Traced.never_bind client_of_harmless (fun _ => ?_)
  cases lens with
  | some lens_file =>
    exact Traced.never_bind (Traced.never_lift _) (fun _ => reads_harmless discovery_list_reads)
  | none =>
    simp only
    split
    · exact reads_harmless (Traced.never_forM _ _ fun _ => discovery_list_reads)
    · exact reads_harmless discovery_list_reads

theorem logs_harmless {name : Option String} {ns : String} {regex : Option String}
    {follow json : Bool} {context : Option String} :
    Harmless (logs env name ns regex follow json context) := by
  refine Traced.never_bind client_of_harmless (fun _ => ?_)
  cases name with
  | none =>
    refine Traced.never_bind (Traced.never_when (Traced.never_lift _)) (fun _ => ?_)
    exact reads_harmless multi_pod_logs_reads
  | some pod_name =>
    simp only
    split
    · exact Traced.never_bind (Traced.never_lift _) (fun _ => reads_harmless pod_logs_reads)
    · split
      · exact Traced.never_bind (Traced.never_lift _) (fun _ => reads_harmless follow_logs_reads)
      · exact Traced.never_bind (reads_harmless pod_logs_reads) (fun _ => Traced.never_lift _)

theorem edit_in_editor_harmless {gvk : GroupVersionKind} {namespace_ : Option String}
    {name : String} : Harmless (edit_in_editor env gvk namespace_ name) := by
  refine Traced.never_bind (reads_harmless describe_dynamic_reads) (fun _ => ?_)
  refine Traced.never_bind (Traced.never_when (audit_write_harmless)) (fun _ => ?_)
  refine Traced.never_bind (Traced.never_lift _) (fun edited => ?_)
  cases edited with
  | some manifest => exact core_harmless dry_run_apply_patch_ungoverned
  | none => exact Traced.never_of_no_events rfl

/-- A removed forward is recorded, and nothing is opened. -/
theorem port_forward_remove_harmless {name : String} :
    Harmless (port_forward_remove env name) := by
  refine Traced.never_bind (Traced.never_lift _) (fun _ => ?_)
  split
  · exact audit_write_harmless
  · exact Traced.never_of_no_events rfl

theorem run_tool_harmless {binary : String} {args : List String} :
    Harmless (run_tool env binary args) :=
  Traced.never_bind (Traced.never_emit id) (fun _ => Traced.never_lift _)

theorem krew_harmless {tool : String} {args : List String} : Harmless (krew env tool args) := by
  unfold krew
  split
  · split
    · exact Traced.never_emit id
    · exact run_tool_harmless
  · exact run_tool_harmless
  · exact run_tool_harmless
  · exact Traced.never_of_no_events rfl

end Harmless

section Gated

variable {env : Env} {α : Type} {reason : Option String}

theorem gated_of_harmless {x : Traced Event α} (h : Harmless x) : Gated env reason x :=
  Traced.preceded_of_never h

/-- Whatever follows the gate is gated. -/
theorem gated_after_gate {f : Unit → Traced Event α} :
    Gated env reason (gate_write env reason >>= f) := by
  refine Traced.preceded_bind_of_guard (gate_write_harmless reason) ?_
  intro u h
  unfold gate_write at h ⊢
  cases hctx : env.current_context_name with
  | error msg =>
    rw [hctx, Traced.lift_error_bind] at h
    cases h
  | ok ctx =>
    rw [hctx, Traced.lift_ok_bind] at h
    rw [Traced.lift_ok_bind]
    cases hgate : guardrails.gate_write (env.guardrails.classify env.regex ctx) reason with
    | error msg =>
      simp only [hgate, Traced.lift_error_bind] at h
      cases h
    | ok _ =>
      refine ⟨.gate_ok (env.guardrails.classify env.regex ctx) reason, ?_, ctx, hctx, hgate, rfl⟩
      simp only [hgate, Traced.lift_ok_bind, Traced.emit_events, List.mem_singleton]

/-- A command that does nothing unless it is confirmed. -/
theorem gated_after_ensure {confirm : Bool} {msg : String} {f : Unit → Traced Event α} :
    Gated env reason (Traced.ensure confirm msg >>= fun _ => gate_write env reason >>= f) :=
  Traced.preceded_bind (Traced.never_ensure confirm msg) (fun _ => gated_after_gate)

end Gated

/-! ## The forward of a port -/

/-- A forward that is kept where it has a name, finds its port free, and whose
pod opens a stream. -/
def forward_opens (env : Env) : Command → Prop
  | .PortForward pod namespace_ port local_ name =>
    env.client = .ok () ∧ keep_forward env pod namespace_ port local_ name = .ok () ∧
      (∃ addr, env.bind local_ = .ok addr) ∧ true ∈ env.cluster.tunnels
  | _ => False

/-- No event of a forward is the gate's. -/
theorem port_forward_never_gates {env : Env} {reason : Option String} {pod ns : String}
    {port local_ : Nat} {name : Option String} :
    Traced.Never (Event.opens env reason) (port_forward env pod ns port local_ name) := by
  refine Traced.never_bind (Traced.never_lift _) (fun _ => ?_)
  refine Traced.never_bind (Traced.never_lift _) (fun _ => ?_)
  refine Traced.never_bind (Traced.never_emit ?_) (fun _ => ?_)
  · rintro ⟨ctx, _, _, h⟩
    cases h
  · refine Traced.never_bind (Traced.never_map_events.mpr ?_) (fun _ => Traced.never_lift _)
    rintro a _ ⟨ctx, _, _, h⟩
    cases h

theorem run_port_forward_harmless_iff (env : Env) (pod ns : String) (port local_ : Nat)
    (name : Option String) :
    Harmless (run env (.PortForward pod ns port local_ name)) ↔
      ¬ forward_opens env (.PortForward pod ns port local_ name) := by
  have hserve : Harmless (core (serve env.cluster ns pod port)) ↔ true ∉ env.cluster.tunnels :=
    Traced.never_map_events.trans (serve_ungoverned_iff env.cluster ns pod port)
  have hrun : run env (.PortForward pod ns port local_ name) =
      (Traced.lift env.client >>= fun _ => port_forward env pod ns port local_ name) := rfl
  have htail : Harmless (audit_write env .PortForward "Pod" ns pod .Applied none >>= fun _ =>
      core (serve env.cluster ns pod port) >>= fun _ => Traced.lift env.ctrl_c) ↔
        true ∉ env.cluster.tunnels :=
    (Traced.never_emit_bind_iff fun h => h).trans (Traced.never_bind_lift_iff.trans hserve)
  rw [hrun]
  unfold forward_opens port_forward
  simp only [Traced.never_lift_bind_iff, htail]
  constructor
  · rintro h ⟨hclient, hkeep, ⟨addr, hbind⟩, htunnel⟩
    exact h () hclient () hkeep addr hbind htunnel
  · intro h _ hclient _ hkeep addr hbind htunnel
    exact h ⟨hclient, hkeep, ⟨addr, hbind⟩, htunnel⟩

/-- A forward passes no gate, so it is gated only where it performs nothing. -/
theorem run_port_forward_gated_iff (env : Env) (pod ns : String) (port local_ : Nat)
    (name : Option String) :
    Gated env none (run env (.PortForward pod ns port local_ name)) ↔
      ¬ forward_opens env (.PortForward pod ns port local_ name) := by
  refine Iff.trans ?_ (run_port_forward_harmless_iff env pod ns port local_ name)
  refine ⟨fun h => ?_, gated_of_harmless⟩
  intro e he hgov
  refine Traced.not_preceded he hgov ?_ h
  exact Traced.never_bind (Traced.never_lift _) (fun _ => port_forward_never_gates)

/-! ## Every command -/

/-- What is not confirmed writes nothing: the reads, and the dry runs of the writes. -/
theorem unconfirmed_harmless (env : Env) (command : Command)
    (hforward : ∀ pod ns port local_ name, command ≠ .PortForward pod ns port local_ name)
    (h : command.confirmed = false) : Harmless (run env command) := by
  refine Traced.never_bind (Traced.never_lift _) (fun _ => ?_)
  cases command with
  | PortForward pod ns port local_ name => exact absurd rfl (hforward pod ns port local_ name)
  -- The reads.
  | Get => exact get_harmless
  | Can => exact reads_harmless rules_review_reads
  | Preflight => exact reads_harmless rules_review_reads
  | Diagnose => exact Traced.never_bind client_of_harmless fun _ => reads_harmless get_pod_reads
  | BlastRadius =>
    exact Traced.never_bind parse_gvk_harmless fun _ =>
      Traced.never_bind client_of_harmless fun _ => reads_harmless blast_radius_reads
  | WhyJobPending =>
    exact Traced.never_bind client_of_harmless fun _ => reads_harmless why_is_job_pending_reads
  | Describe =>
    exact Traced.never_bind parse_gvk_harmless fun _ =>
      Traced.never_bind client_of_harmless fun _ => reads_harmless describe_dynamic_reads
  | Logs => exact logs_harmless
  | Mcp =>
    exact Traced.never_forM _ _ fun _ => reads_harmless (mcp.governed_call_reads _ _ _ _)
  | Tui => exact reads_harmless <| Traced.never_forM _ _ fun r => try_send_reads r.property
  | Events =>
    exact Traced.never_bind client_of_harmless fun _ => reads_harmless recent_events_reads
  | Overview =>
    exact Traced.never_bind client_of_harmless fun _ =>
      Traced.never_bind (reads_harmless snapshot_into_ring_reads) fun _ =>
        reads_harmless overview_with_health_reads
  | Watch =>
    exact Traced.never_bind client_of_harmless fun _ =>
      Traced.never_bind parse_gvk_harmless fun _ => reads_harmless watch_into_ring_reads
  | WatchStore =>
    exact Traced.never_bind parse_gvk_harmless fun _ => reads_harmless run_informer_reads
  | Drain => exact reads_harmless list_pods_reads
  | DebugContainers => exact core_harmless get_ephemeral_containers_ungoverned
  -- The dry runs.
  | Apply =>
    exact Traced.never_bind client_of_harmless fun _ =>
      Traced.never_bind (Traced.never_lift _) fun _ => core_harmless dry_run_apply_ungoverned
  | Edit =>
    exact Traced.never_bind client_of_harmless fun _ =>
      Traced.never_bind parse_gvk_harmless fun _ => edit_in_editor_harmless
  | Exec pod ns container command tty confirm reason =>
    obtain rfl : confirm = false := h
    exact Traced.never_of_no_events rfl
  | Restart gvk name ns confirm reason =>
    obtain rfl : confirm = false := h
    exact Traced.never_of_no_events rfl
  | Delete gvk name ns cascade confirm reason =>
    obtain rfl : confirm = false := h
    refine Traced.never_bind (Traced.never_when (gate_write_harmless reason)) fun _ => ?_
    refine Traced.never_bind parse_gvk_harmless fun _ => ?_
    exact Traced.never_bind (core_harmless delete_dry_run_ungoverned) fun _ => audit_write_harmless
  | Scale gvk name ns replicas confirm reason =>
    obtain rfl : confirm = false := h
    refine Traced.never_bind (Traced.never_when (gate_write_harmless reason)) fun _ => ?_
    refine Traced.never_bind parse_gvk_harmless fun _ => ?_
    exact Traced.never_bind (core_harmless scale_dry_run_ungoverned) fun _ => audit_write_harmless
  | Cordon name confirm reason =>
    obtain rfl : confirm = false := h
    refine Traced.never_bind (Traced.never_when (gate_write_harmless reason)) fun _ => ?_
    refine Traced.never_bind (core_harmless cordon_dry_run_ungoverned) fun _ => ?_
    exact Traced.never_when audit_write_harmless
  | Uncordon name confirm reason =>
    obtain rfl : confirm = false := h
    refine Traced.never_bind (Traced.never_when (gate_write_harmless reason)) fun _ => ?_
    refine Traced.never_bind (core_harmless uncordon_dry_run_ungoverned) fun _ => ?_
    exact Traced.never_when audit_write_harmless
  | Evict name ns confirm reason =>
    obtain rfl : confirm = false := h
    refine Traced.never_bind (Traced.never_when (gate_write_harmless reason)) fun _ => ?_
    refine Traced.never_bind (core_harmless evict_dry_run_ungoverned) fun _ => ?_
    exact Traced.never_when audit_write_harmless
  | Debug pod ns name image command confirm reason =>
    obtain rfl : confirm = false := h
    refine Traced.never_bind (Traced.never_when (gate_write_harmless reason)) fun _ => ?_
    refine Traced.never_bind (core_harmless add_dry_run_ungoverned) fun _ => ?_
    exact Traced.never_when audit_write_harmless
  -- The rest does not act in the cluster.
  | PortForwardRemove => exact port_forward_remove_harmless
  | Krew => exact krew_harmless
  | _ => exact Traced.never_lift _

/-- A confirmed write begins with the gate. -/
theorem confirmed_gated (env : Env) (command : Command) (h : command.confirmed = true) :
    Gated env command.break_glass (run env command) := by
  refine Traced.preceded_bind (Traced.never_lift _) (fun _ => ?_)
  cases command with
  | Exec => exact gated_after_ensure
  | Restart => exact gated_after_ensure
  | Delete gvk name ns cascade confirm reason =>
    obtain rfl : confirm = true := h
    exact gated_after_gate
  | Scale gvk name ns replicas confirm reason =>
    obtain rfl : confirm = true := h
    exact gated_after_gate
  | Cordon name confirm reason =>
    obtain rfl : confirm = true := h
    exact gated_after_gate
  | Uncordon name confirm reason =>
    obtain rfl : confirm = true := h
    exact gated_after_gate
  | Evict name ns confirm reason =>
    obtain rfl : confirm = true := h
    exact gated_after_gate
  | Debug pod ns name image command confirm reason =>
    obtain rfl : confirm = true := h
    exact gated_after_gate
  | _ => cases h

theorem other_commands_gated (env : Env) (command : Command)
    (h : ∀ pod ns port local_ name, command ≠ .PortForward pod ns port local_ name) :
    Gated env command.break_glass (run env command) := by
  cases hc : command.confirmed with
  | true => exact confirmed_gated env command hc
  | false => exact gated_of_harmless (unconfirmed_harmless env command h hc)

/-- Every governed operation of every command comes after the gate, but for the
forwards of a port that open a stream. -/
theorem every_governed_operation_is_gated_iff (env : Env) (command : Command) :
    Gated env command.break_glass (run env command) ↔ ¬ forward_opens env command := by
  cases command with
  | PortForward pod ns port local_ name => exact run_port_forward_gated_iff ..
  | _ => exact iff_of_true (other_commands_gated env _ nofun) id

/-- A context of production, with a cluster that answers and a pod that opens a stream. -/
def prod_env : Env where
  to_plural := (· ++ "s")
  regex := fun p => some fun name => name == p
  guardrails := { prod := ["prod-eu"], staging := [] }
  current_context_name := .ok "prod-eu"
  user := none
  now_ms := 0
  client := .ok ()
  client_for_context := fun _ => .ok ()
  cluster := {
    api := mcp.default_reader.api
    react := fun _ => { took_effect := true, answer := .ok () }
    ephemeral_containers := none
    replicas := none
    attached := {
      stdin := true, stdout := some (.ok ""), stderr := some (.ok ""), stdin_to_pod := .ok ()
      pod_to_local := .ok (), join := .ok (), take_status := none }
    tunnels := [true]
    parse_manifest := fun _ => .ok ()
    is_validation_error := fun _ => false }
  lens_file := fun _ => .ok ()
  local_command := fun _ => .ok ()
  print := fun _ => .ok ()
  read_manifest := fun _ => .ok ""
  edited := .ok none
  forwards := []
  persist := fun _ => .ok ()
  bind := fun _ => .ok 40000
  ctrl_c := .ok ()
  external := fun _ _ => .ok ()
  listed := 0
  tui_session := []
  mcp_env := mcp.default_reader
  mcp_session := []

/-- The tunnel is opened in production and recorded as applied, and no gate was asked. -/
theorem a_forward_is_opened_without_the_gate :
    ¬ Gated prod_env none (run prod_env (.PortForward "web" "default" 8080 0 none)) ∧
      ∃ e, .audited e ∈ (run prod_env (.PortForward "web" "default" 8080 0 none)).events ∧
        e.operation = .PortForward ∧ e.outcome = .Applied := by
  refine ⟨?_, _, List.mem_cons_self, rfl, rfl⟩
  rw [run_port_forward_gated_iff, not_not]
  exact ⟨rfl, rfl, ⟨_, rfl⟩, List.mem_cons_self⟩

end kaptein_cli
