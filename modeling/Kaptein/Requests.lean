-- The reads of `kaptein-core` as the requests that they send to the API
-- server. What a request answers is the server's; only whether it answers
-- decides which requests follow.
import Kaptein.Lib.Traced
import Kaptein.Object

open kube rust_str

namespace kaptein_core

inductive Scope where
  | Namespaced (namespace_ : String)
  | ClusterWide
  deriving DecidableEq

/-- A request to the API server. A list has no name, and only the logs of a pod
have a container. -/
structure Request where
  verb : String
  group : String
  resource : String
  scope : Scope
  name : Option String := none
  container : Option String := none
  deriving DecidableEq

/-- The requests that change nothing. A rules review is created to be answered,
and is kept nowhere. -/
def Request.reads (r : Request) : Prop :=
  r.verb = "get" ∨ r.verb = "list" ∨ r.verb = "watch" ∨
    (r.group = "authorization.k8s.io" ∧ r.resource = "selfsubjectrulesreviews")

/-- What the server answers to a request, the containers of a pod, the pods that
a list for their logs gives, the tokens of the further pages of a list, and for
each watch of a store whether it is accepted. -/
structure Api where
  answer : Request → Except String Unit
  containers : (pod : String) → List String
  selected : List String
  tokens : List String
  watches : List Bool

variable (to_plural : String → String)

/-- `ApiResource::from_gvk(..).plural`, the plural of the kind in lower case. -/
def plural (gvk : GroupVersionKind) : String := to_plural (to_ascii_lowercase gvk.kind)

/-! ## The core functions -/

/-- Sends one request and takes its answer. -/
def send (api : Api) (r : Request) : Traced Request Unit := do
  Traced.emit r
  Traced.lift (api.answer r)

/-- `if let Ok(..)`: the answer may be an error, and the run goes on. -/
def try_send (r : Request) : Traced Request Unit := Traced.emit r

/-- `Api::namespaced` for a namespace, `Api::all` for none. -/
def scope_of : Option String → Scope
  | some ns => .Namespaced ns
  | none => .ClusterWide

def discovery_list (api : Api) (gvk : GroupVersionKind) (namespace_ : Option String) :
    Traced Request Unit :=
  send api {
    verb := "list", group := gvk.group, resource := plural to_plural gvk
    scope := scope_of namespace_ }

def object_request (gvk : GroupVersionKind) (scope : Scope) (name : String) : Request where
  verb := "get"
  group := gvk.group
  resource := plural to_plural gvk
  scope := scope
  name := some name

def describe_dynamic (api : Api) (gvk : GroupVersionKind) (namespace_ : Option String)
    (name : String) : Traced Request Unit :=
  send api (object_request to_plural gvk (scope_of namespace_) name)

def pod_request (namespace_ name : String) : Request where
  verb := "get"
  group := ""
  resource := "pods"
  scope := .Namespaced namespace_
  name := some name

def get_pod (api : Api) (namespace_ name : String) : Traced Request Unit :=
  send api (pod_request namespace_ name)

def logs_request (namespace_ name : String) (container : Option String) : Request where
  verb := "get"
  group := ""
  resource := "pods/log"
  scope := .Namespaced namespace_
  name := some name
  container := container

/-- The log of each container of a pod. -/
def container_logs (api : Api) (namespace_ name : String) : Traced Request Unit :=
  (api.containers name).forM fun cname => send api (logs_request namespace_ name (some cname))

def pod_logs (api : Api) (namespace_ name : String) : Traced Request Unit := do
  get_pod api namespace_ name
  container_logs api namespace_ name

def list_pods (api : Api) (namespace_ : Option String) : Traced Request Unit :=
  send api { verb := "list", group := "", resource := "pods", scope := scope_of namespace_ }

/-- The pods of a selector are listed before the filter of the lines is looked at. -/
def multi_pod_logs (api : Api) (namespace_ : String) (regex : Except String Unit) :
    Traced Request Unit := do
  list_pods api (some namespace_)
  Traced.lift regex
  api.selected.forM fun pod_name => container_logs api namespace_ pod_name

/-- The stream is opened once, and its end is not an error. -/
def follow_logs (namespace_ name : String) : Traced Request Unit :=
  try_send (logs_request namespace_ name none)

/-- Both event APIs are read, and neither error stops the call. -/
def recent_events (namespace_ : Option String) : Traced Request Unit := do
  try_send { verb := "list", group := "", resource := "events", scope := scope_of namespace_ }
  try_send {
    verb := "list", group := "events.k8s.io", resource := "events", scope := scope_of namespace_ }

def explain_pod_failure (api : Api) (namespace_ name : String) : Traced Request Unit := do
  get_pod api namespace_ name
  recent_events (some namespace_)

def why_is_job_pending (api : Api) (namespace_ name : String) : Traced Request Unit := do
  send api {
    verb := "get", group := "batch", resource := "jobs", scope := .Namespaced namespace_
    name := some name }
  list_pods api (some namespace_)

def what_changed_between (namespace_ : String) : Traced Request Unit :=
  recent_events (some namespace_)

/-- An empty namespace is none. -/
def target_scope : Option String → Scope
  | some ns => if ns = "" then .ClusterWide else .Namespaced ns
  | none => .ClusterWide

/-- One kind that may stand between the target and its pods. A kind that cannot
be listed is skipped. -/
def list_intermediate (namespace_ : Option String) (group kind : String) :
    Traced Request Unit :=
  try_send {
    verb := "list", group, resource := plural to_plural ⟨group, "v1", kind⟩
    scope := target_scope namespace_ }

/-- The two kinds in between, and the pods. -/
def list_dependents (api : Api) (namespace_ : Option String) : Traced Request Unit := do
  list_intermediate to_plural namespace_ "apps" "ReplicaSet"
  list_intermediate to_plural namespace_ "batch" "Job"
  send api { verb := "list", group := "", resource := "pods", scope := target_scope namespace_ }

def blast_radius (api : Api) (namespace_ : Option String) (gvk : GroupVersionKind)
    (name : String) : Traced Request Unit := do
  send api (object_request to_plural gvk (target_scope namespace_) name)
  list_dependents to_plural api namespace_

def rules_review (api : Api) : Traced Request Unit :=
  send api {
    verb := "create", group := "authorization.k8s.io", resource := "selfsubjectrulesreviews"
    scope := .ClusterWide }

/-- A snapshot that fails leaves the ring empty. -/
def snapshot_into_ring (gvk : GroupVersionKind) (namespace_ : Option String) :
    Traced Request Unit :=
  try_send {
    verb := "list", group := gvk.group, resource := plural to_plural gvk
    scope := scope_of namespace_ }

def overview_with_health (namespace_ : Option String) : Traced Request Unit := do
  recent_events namespace_
  -- The unhealthy and the misconfigured pods are each listed on their own.
  let pods : Request :=
    { verb := "list", group := "", resource := "pods", scope := scope_of namespace_ }
  try_send pods
  try_send pods

/-- The objects that exist, and a watch unless they already fill the count. -/
def watch_into_ring (api : Api) (gvk : GroupVersionKind) (namespace_ : Option String)
    (listed max_events : Nat) : Traced Request Unit := do
  discovery_list to_plural api gvk namespace_
  if listed ≠ 0 ∧ max_events ≤ listed then pure ()
  else
    send api {
      verb := "watch", group := gvk.group, resource := plural to_plural gvk
      scope := scope_of namespace_ }

/-- A refused watch is followed by a list for the version to watch from. -/
def watch_from_until (api : Api) (gvk : GroupVersionKind) (namespace_ : Option String) :
    Traced Request Unit :=
  api.watches.forM fun accepted => do
    let list : Request :=
      { verb := "list", group := gvk.group, resource := plural to_plural gvk
        scope := scope_of namespace_ }
    try_send { list with verb := "watch" }
    if accepted then pure () else try_send list

/-- The list page by page. -/
def list_pages (api : Api) (gvk : GroupVersionKind) (namespace_ : Option String) :
    Traced Request Unit :=
  (none :: api.tokens.map some).forM fun _ => discovery_list to_plural api gvk namespace_

def run_informer (api : Api) (gvk : GroupVersionKind) (namespace_ : Option String)
    (max_events : Nat) : Traced Request Unit := do
  list_pages to_plural api gvk namespace_
  if max_events = 0 then pure () else watch_from_until to_plural api gvk namespace_

/-! ## What a request is followed by -/

theorem send_events (api : Api) (r : Request) : (send api r).events = [r] := rfl

theorem send_bind_ok {api : Api} {r : Request} {u : Unit} (h : api.answer r = .ok u)
    (f : Unit → Traced Request Unit) :
    (send api r >>= f) = { events := r :: (f u).events, result := (f u).result } :=
  Traced.bind_ok (x := send api r) h f

theorem send_bind_error {api : Api} {r : Request} {msg : String} (h : api.answer r = .error msg)
    (f : Unit → Traced Request Unit) :
    (send api r >>= f) = { events := [r], result := .error msg } :=
  Traced.bind_error (x := send api r) h f

/-- What comes first is sent. -/
theorem mem_send_bind (api : Api) (r : Request) (f : Unit → Traced Request Unit) :
    r ∈ (send api r >>= f).events := by
  obtain ⟨rest, hrest⟩ := Traced.prefix_bind (send api r) f
  rw [← hrest]
  exact List.mem_append_left _ List.mem_cons_self

variable {to_plural} {api : Api} in
/-- The first request of a blast radius in a named namespace. -/
theorem blast_radius_namespaced {ns : String} (hne : ns ≠ "") (gvk : GroupVersionKind)
    (name : String) :
    blast_radius to_plural api (some ns) gvk name =
      (send api (object_request to_plural gvk (.Namespaced ns) name) >>= fun _ =>
        list_dependents to_plural api (some ns)) := by
  have hscope : target_scope (some ns) = .Namespaced ns := by
    simp only [target_scope, if_neg hne]
  unfold blast_radius
  rw [hscope]

/-! ## Every request reads -/

/-- A function that sends reads only. -/
abbrev OnlyReads (x : Traced Request Unit) : Prop := Traced.Never (fun r => ¬ r.reads) x

theorem try_send_reads {r : Request} (h : r.reads) : OnlyReads (try_send r) :=
  Traced.never_emit (not_not_intro h)

theorem send_reads (api : Api) {r : Request} (h : r.reads) : OnlyReads (send api r) :=
  Traced.never_bind (try_send_reads h) (fun _ => Traced.never_of_no_events rfl)

section Reads

variable {to_plural : String → String} {api : Api} {gvk : GroupVersionKind}
  {namespace_ : Option String} {ns name : String}

theorem list_reads {group resource : String} {scope : Scope} :
    Request.reads { verb := "list", group, resource, scope } := Or.inr (Or.inl rfl)

theorem discovery_list_reads : OnlyReads (discovery_list to_plural api gvk namespace_) :=
  send_reads api list_reads

theorem describe_dynamic_reads :
    OnlyReads (describe_dynamic to_plural api gvk namespace_ name) :=
  send_reads api (Or.inl rfl)

theorem get_pod_reads : OnlyReads (get_pod api ns name) := send_reads api (Or.inl rfl)

theorem list_pods_reads : OnlyReads (list_pods api namespace_) := send_reads api list_reads

theorem container_logs_reads : OnlyReads (container_logs api ns name) :=
  Traced.never_forM _ _ (fun _ => send_reads api (Or.inl rfl))

theorem pod_logs_reads : OnlyReads (pod_logs api ns name) :=
  Traced.never_bind get_pod_reads (fun _ => container_logs_reads)

theorem multi_pod_logs_reads {regex : Except String Unit} :
    OnlyReads (multi_pod_logs api ns regex) := by
  refine Traced.never_bind list_pods_reads (fun _ => ?_)
  refine Traced.never_bind (Traced.never_of_no_events rfl) (fun _ => ?_)
  exact Traced.never_forM _ _ (fun _ => container_logs_reads)

theorem follow_logs_reads : OnlyReads (follow_logs ns name) := try_send_reads (Or.inl rfl)

theorem recent_events_reads : OnlyReads (recent_events namespace_) :=
  Traced.never_bind (try_send_reads list_reads) (fun _ => try_send_reads list_reads)

theorem explain_pod_failure_reads : OnlyReads (explain_pod_failure api ns name) :=
  Traced.never_bind get_pod_reads (fun _ => recent_events_reads)

theorem why_is_job_pending_reads : OnlyReads (why_is_job_pending api ns name) :=
  Traced.never_bind (send_reads api (Or.inl rfl)) (fun _ => list_pods_reads)

theorem blast_radius_reads : OnlyReads (blast_radius to_plural api namespace_ gvk name) := by
  refine Traced.never_bind (send_reads api (Or.inl rfl)) (fun _ => ?_)
  refine Traced.never_bind (try_send_reads list_reads) (fun _ => ?_)
  refine Traced.never_bind (try_send_reads list_reads) (fun _ => ?_)
  exact send_reads api list_reads

theorem rules_review_reads : OnlyReads (rules_review api) :=
  send_reads api (Or.inr (Or.inr (Or.inr ⟨rfl, rfl⟩)))

theorem snapshot_into_ring_reads : OnlyReads (snapshot_into_ring to_plural gvk namespace_) :=
  try_send_reads list_reads

theorem overview_with_health_reads : OnlyReads (overview_with_health namespace_) := by
  refine Traced.never_bind recent_events_reads (fun _ => ?_)
  exact Traced.never_bind (try_send_reads list_reads) (fun _ => try_send_reads list_reads)

theorem watch_into_ring_reads {listed max_events : Nat} :
    OnlyReads (watch_into_ring to_plural api gvk namespace_ listed max_events) := by
  refine Traced.never_bind discovery_list_reads (fun _ => ?_)
  split
  · exact Traced.never_of_no_events rfl
  · exact send_reads api (Or.inr (Or.inr (Or.inl rfl)))

theorem run_informer_reads {max_events : Nat} :
    OnlyReads (run_informer to_plural api gvk namespace_ max_events) := by
  refine Traced.never_bind (Traced.never_forM _ _ (fun _ => discovery_list_reads)) (fun _ => ?_)
  split
  · exact Traced.never_of_no_events rfl
  · refine Traced.never_forM _ _ (fun accepted => ?_)
    refine Traced.never_bind (try_send_reads (Or.inr (Or.inr (Or.inl rfl)))) (fun _ => ?_)
    split
    · exact Traced.never_of_no_events rfl
    · exact try_send_reads list_reads

end Reads

end kaptein_core
