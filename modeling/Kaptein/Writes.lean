-- The writes of `kaptein-core` and the channels that it opens into a pod, as
-- the acts of a run: reads, and calls that take effect in the cluster or not.
-- A call can take effect and its answer be lost.
import Kaptein.Governance
import Kaptein.Requests

open kube kaptein_viewmodel.audit

namespace kaptein_core

inductive PropagationPolicy where
  | Orphan
  | Foreground
  | Background
  deriving DecidableEq

structure EphemeralContainer where
  name : String
  image : Option String
  command : Option (List String)
  deriving DecidableEq

/-- The calls to the API server that are not reads. -/
inductive Call where
  | delete (gvk : GroupVersionKind) (namespace_ : Option String) (name : String)
      (propagation_policy : PropagationPolicy) (dry_run : Bool)
  | patch_scale (gvk : GroupVersionKind) (namespace_ : Option String) (name : String)
      (replicas : Int) (dry_run : Bool)
  | restart (kind namespace_ name : String)
  | cordon (name : String)
  | uncordon (name : String)
  | evict (namespace_ name : String)
  | replace_ephemeral_containers (namespace_ pod : String) (containers : List EphemeralContainer)
  | exec (namespace_ pod : String) (command : List String) (container : Option String) (tty : Bool)
  | portforward (namespace_ pod : String) (port : Nat)
  | create (manifest : String) (dry_run : Bool)
  | apply (manifest : String) (dry_run force : Bool)
  deriving DecidableEq

/-- The operation that a call performs where it takes effect. A dry run
performs none, and there is no operation for an applied manifest. -/
def Call.operation : Call → Option Operation
  | .delete _ _ _ _ dry_run => if dry_run then none else some .Delete
  | .patch_scale _ _ _ _ dry_run => if dry_run then none else some .Scale
  | .restart .. => some .Restart
  | .cordon _ | .uncordon _ => some .Cordon
  | .evict .. => some .Evict
  | .replace_ephemeral_containers .. => some .EphemeralAttach
  | .exec .. => some .Exec
  | .portforward .. => some .PortForward
  | .create .. | .apply .. => none

inductive Act where
  | request (r : Request)
  | call (c : Call) (took_effect : Bool)
  deriving DecidableEq

/-- An act that performs an operation which must be gated and audited. -/
def Act.governed : Act → Prop
  | .request r => ¬ r.reads
  | .call c took_effect =>
    took_effect = true ∧ ∃ op, c.operation = some op ∧ op.is_governed = true

/-- What becomes of a call: whether it takes effect, and its answer. -/
structure Reaction where
  took_effect : Bool
  answer : Except String Unit

structure Status where
  status : Option String
  reason : Option String
  message : Option String

/-- The streams of a command that runs in a container, read to their ends, and
the status that it leaves. -/
structure Attached where
  stdin : Bool
  stdout : Option (Except String String)
  stderr : Option (Except String String)
  stdin_to_pod : Except String Unit
  pod_to_local : Except String Unit
  join : Except String Unit
  take_status : Option (Option Status)

/-- What the cluster does in a run. The tunnels are the streams that a forward
asks for until it is stopped, with whether the pod opens each. -/
structure Cluster where
  api : Api
  react : Call → Reaction
  ephemeral_containers : Option (List EphemeralContainer)
  replicas : Option Int
  attached : Attached
  tunnels : List Bool
  parse_manifest : String → Except String Unit
  is_validation_error : String → Bool

/-- A read of a core function. -/
def reading (x : Traced Request Unit) : Traced Act Unit := x.map_events .request

def perform (cluster : Cluster) (c : Call) : Traced Act Unit := do
  Traced.emit (.call c (cluster.react c).took_effect)
  Traced.lift (cluster.react c).answer

/-! ## Delete (`delete.rs`) -/

structure DeleteOutcome where
  deleted : Bool
  message : String

def delete (cluster : Cluster) (gvk : GroupVersionKind) (name : String)
    (namespace_ : Option String) (cascade : PropagationPolicy) (confirm : Bool) :
    Traced Act DeleteOutcome := do
  perform cluster (.delete gvk namespace_ name cascade (!confirm))
  pure {
    deleted := confirm
    message := if confirm then "deleted " ++ name else "dry-run: " ++ name ++ " would be deleted" }

def parse_propagation (s : String) : PropagationPolicy :=
  match s with
  | "orphan" => .Orphan
  | "foreground" => .Foreground
  | _ => .Background

/-! ## Scale and restart (`workloads.rs`) -/

structure ScaleOutcome where
  scaled : Bool
  message : String

def scale (cluster : Cluster) (gvk : GroupVersionKind) (name : String)
    (namespace_ : Option String) (replicas : Int) (confirm : Bool) : Traced Act ScaleOutcome := do
  perform cluster (.patch_scale gvk namespace_ name replicas (!confirm))
  let actual := cluster.replicas.getD replicas
  pure {
    scaled := confirm
    message :=
      if confirm then "scaled " ++ name ++ " to " ++ toString actual ++ " replicas"
      else "dry-run: " ++ name ++ " would scale to " ++ toString replicas ++ " replicas" }

/-- There is no dry run of a restart: the caller asks for the confirmation. -/
def restart (cluster : Cluster) (gvk : GroupVersionKind) (name namespace_ : String) :
    Traced Act String :=
  match gvk.kind with
  | "Deployment" | "StatefulSet" | "DaemonSet" => do
    perform cluster (.restart gvk.kind namespace_ name)
    pure ("restarted " ++ name ++
      " (annotated the pod template with kube.kubernetes.io/restartedAt)")
  | other =>
    Traced.fail ("restart is not supported for kind '" ++ other ++
      "' (supported: Deployment, StatefulSet, DaemonSet)")

/-! ## Nodes (`nodes.rs`) -/

def cordon (cluster : Cluster) (name : String) (confirm : Bool) : Traced Act String :=
  if !confirm then pure ("dry-run: " ++ name ++ " would be cordoned (unschedulable)")
  else do
    perform cluster (.cordon name)
    pure ("cordoned " ++ name ++ " (marked unschedulable)")

def uncordon (cluster : Cluster) (name : String) (confirm : Bool) : Traced Act String :=
  if !confirm then pure ("dry-run: " ++ name ++ " would be uncordoned (schedulable)")
  else do
    perform cluster (.uncordon name)
    pure ("uncordoned " ++ name ++ " (marked schedulable)")

def evict (cluster : Cluster) (namespace_ name : String) (confirm : Bool) : Traced Act String :=
  if !confirm then pure ("dry-run: " ++ namespace_ ++ "/" ++ name ++ " would be evicted")
  else do
    perform cluster (.evict namespace_ name)
    pure ("evicted " ++ namespace_ ++ "/" ++ name)

/-! ## Ephemeral containers (`ephemeral.rs`) -/

def get_ephemeral_containers (cluster : Cluster) (namespace_ pod : String) : Traced Act Unit :=
  reading (send cluster.api {
    verb := "get", group := "", resource := "pods/ephemeralcontainers"
    scope := .Namespaced namespace_, name := some pod })

/-- The new container is put after those that the pod has already. -/
def add (cluster : Cluster) (namespace_ pod container_name image : String)
    (command : List String) (confirm : Bool) : Traced Act String :=
  if !confirm then
    pure ("dry-run: " ++ namespace_ ++ "/" ++ pod ++ " would gain ephemeral container '" ++
      container_name ++ "' (" ++ image ++ ")")
  else do
    get_ephemeral_containers cluster namespace_ pod
    let new_container : EphemeralContainer := {
      name := container_name, image := some image
      command := if command = [] then none else some command }
    let containers := cluster.ephemeral_containers.getD [] ++ [new_container]
    perform cluster (.replace_ephemeral_containers namespace_ pod containers)
    pure ("attached ephemeral container '" ++ container_name ++ "' (" ++ image ++ ") to " ++
      namespace_ ++ "/" ++ pod)

/-! ## Exec (`exec.rs`) -/

/-- A stream that is not there is empty. -/
def read_stream : Option (Except String String) → Except String String
  | some r => r
  | none => .ok ""

/-- The remote status is looked at after the command has run. -/
def check_status (attached : Attached) : Except String Unit :=
  match attached.take_status with
  | some (some status) =>
    if status.status = some "Failure" then
      .error ("exec failed (" ++ status.reason.getD "exec failed" ++ "): " ++
        status.message.getD "remote command failed")
    else .ok ()
  | _ => .ok ()

def exec (cluster : Cluster) (namespace_ pod : String) (command : List String)
    (container : Option String) : Traced Act String := do
  perform cluster (.exec namespace_ pod command container false)
  let stdout ← Traced.lift (read_stream cluster.attached.stdout)
  let stderr ← Traced.lift (read_stream cluster.attached.stderr)
  Traced.lift cluster.attached.join
  Traced.lift (check_status cluster.attached)
  pure (stdout ++ stderr)

def exec_tty (cluster : Cluster) (namespace_ pod : String) (command : List String)
    (container : Option String) : Traced Act Unit := do
  perform cluster (.exec namespace_ pod command container true)
  Traced.ensure cluster.attached.stdin "TTY stdin unavailable"
  Traced.ensure cluster.attached.stdout.isSome "TTY stdout unavailable"
  Traced.lift cluster.attached.stdin_to_pod
  Traced.lift cluster.attached.pod_to_local
  Traced.lift cluster.attached.join

/-! ## Port forwards (`portforward.rs`) -/

structure ForwardSpec where
  name : String
  namespace_ : String
  pod : String
  target_port : Nat
  local_port : Nat
  deriving DecidableEq

/-- The specs under their names, in the order of the names. -/
abbrev ForwardManager := List ForwardSpec

def ForwardManager.upsert (spec : ForwardSpec) : ForwardManager → ForwardManager
  | [] => [spec]
  | s :: specs =>
    if spec.name < s.name then spec :: s :: specs
    else if spec.name = s.name then spec :: specs
    else s :: ForwardManager.upsert spec specs

def ForwardManager.remove (name : String) (manager : ForwardManager) : ForwardManager :=
  manager.filter fun s => s.name ≠ name

/-- The task behind the bound listener: it asks the pod for one stream after
the other, and a refused one does not stop it. -/
def serve (cluster : Cluster) (namespace_ pod : String) (port : Nat) : Traced Act Unit :=
  cluster.tunnels.forM fun opened => Traced.emit (.call (.portforward namespace_ pod port) opened)

/-! ## Dry runs (`apply.rs`) -/

/-- A manifest that the server rejects is the result of a dry run, not its error. -/
def validated (cluster : Cluster) (manifest : String) (c : Call) : Traced Act Unit := do
  Traced.lift (cluster.parse_manifest manifest)
  Traced.emit (.call c (cluster.react c).took_effect)
  match (cluster.react c).answer with
  | .ok () => pure ()
  | .error e => if cluster.is_validation_error e then pure () else Traced.fail e

def dry_run_apply (cluster : Cluster) (manifest : String) : Traced Act Unit :=
  validated cluster manifest (.create manifest true)

def apply_patch (cluster : Cluster) (manifest : String) (dry_run force : Bool) :
    Traced Act Unit :=
  if force && !dry_run then
    Traced.fail ("refusing to force field ownership on a non-dry-run apply (issue #16): " ++
      "forcing steals field ownership from Flux/Argo/GitOps")
  else validated cluster manifest (.apply manifest dry_run force)

def dry_run_apply_patch (cluster : Cluster) (manifest : String) : Traced Act Unit :=
  apply_patch cluster manifest true true

/-! ## Functions that perform no governed operation -/

/-- A function of the core that performs nothing governed. -/
abbrev Ungoverned {α : Type} (x : Traced Act α) : Prop := Traced.Never Act.governed x

section Ungoverned

variable {cluster : Cluster}

theorem reading_ungoverned {x : Traced Request Unit} (h : OnlyReads x) : Ungoverned (reading x) :=
  Traced.never_map_events.mpr h

theorem call_ungoverned {c : Call} {took_effect : Bool} (h : c.operation = none) :
    ¬ Act.governed (.call c took_effect) := by
  rintro ⟨_, op, hop, _⟩
  rw [h] at hop
  cases hop

theorem perform_ungoverned {c : Call} (h : c.operation = none) :
    Ungoverned (perform cluster c) :=
  Traced.never_bind (Traced.never_emit (call_ungoverned h)) (fun _ => Traced.never_lift _)

theorem delete_dry_run_ungoverned {gvk : GroupVersionKind} {name : String}
    {namespace_ : Option String} {cascade : PropagationPolicy} :
    Ungoverned (delete cluster gvk name namespace_ cascade false) :=
  Traced.never_bind (perform_ungoverned rfl) (fun _ => Traced.never_of_no_events rfl)

theorem scale_dry_run_ungoverned {gvk : GroupVersionKind} {name : String}
    {namespace_ : Option String} {replicas : Int} :
    Ungoverned (scale cluster gvk name namespace_ replicas false) :=
  Traced.never_bind (perform_ungoverned rfl) (fun _ => Traced.never_of_no_events rfl)

theorem cordon_dry_run_ungoverned {name : String} : Ungoverned (cordon cluster name false) :=
  Traced.never_of_no_events rfl

theorem uncordon_dry_run_ungoverned {name : String} : Ungoverned (uncordon cluster name false) :=
  Traced.never_of_no_events rfl

theorem evict_dry_run_ungoverned {ns name : String} : Ungoverned (evict cluster ns name false) :=
  Traced.never_of_no_events rfl

theorem get_ephemeral_containers_ungoverned {ns pod : String} :
    Ungoverned (get_ephemeral_containers cluster ns pod) :=
  reading_ungoverned (send_reads _ (Or.inl rfl))

theorem add_dry_run_ungoverned {ns pod name image : String} {command : List String} :
    Ungoverned (add cluster ns pod name image command false) :=
  Traced.never_of_no_events rfl

theorem validated_ungoverned {manifest : String} {c : Call} (h : c.operation = none) :
    Ungoverned (validated cluster manifest c) := by
  refine Traced.never_bind (Traced.never_lift _) (fun _ => ?_)
  refine Traced.never_bind (Traced.never_emit (call_ungoverned h)) (fun _ => ?_)
  split
  · exact Traced.never_of_no_events rfl
  · split <;> exact Traced.never_of_no_events rfl

theorem dry_run_apply_ungoverned {manifest : String} :
    Ungoverned (dry_run_apply cluster manifest) := validated_ungoverned rfl

theorem dry_run_apply_patch_ungoverned {manifest : String} :
    Ungoverned (dry_run_apply_patch cluster manifest) := validated_ungoverned rfl

end Ungoverned

theorem serve_events (cluster : Cluster) (ns pod : String) (port : Nat) :
    (serve cluster ns pod port).events =
      cluster.tunnels.map fun opened => Act.call (.portforward ns pod port) opened :=
  Traced.forM_emit_events _ _

/-- A forward performs its operation exactly where the pod opens a stream. -/
theorem serve_ungoverned_iff (cluster : Cluster) (ns pod : String) (port : Nat) :
    Ungoverned (serve cluster ns pod port) ↔ true ∉ cluster.tunnels := by
  unfold Ungoverned Traced.Never
  rw [serve_events, List.forall_mem_map]
  constructor
  · intro h hmem
    exact h true hmem ⟨rfl, _, rfl, rfl⟩
  · rintro h opened hmem ⟨hopened, _⟩
    rw [hopened] at hmem
    exact h hmem

end kaptein_core
