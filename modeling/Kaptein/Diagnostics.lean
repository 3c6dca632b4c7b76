-- The rules over the status of a pod (`diagnostics.rs`), and who reads an empty list of
-- findings as a ready pod: the landing view (`overview.rs`) and the tools of `mcp.rs`.
import Kaptein.Lib.StableSort
import Kaptein.Object

open kube rust_str rust_slice
open scoped List

namespace kaptein_core.diagnostics

/-! ## The status of a pod -/

structure ContainerStateWaiting where
  reason : Option String := none

structure ContainerStateTerminated where
  exit_code : Int
  reason : Option String := none

structure ContainerState where
  waiting : Option ContainerStateWaiting := none
  terminated : Option ContainerStateTerminated := none

structure ContainerStatus where
  name : String
  ready : Bool
  restart_count : Int := 0
  state : Option ContainerState := none
  last_state : Option ContainerState := none

structure PodCondition where
  type_ : String
  status : String
  reason : Option String := none
  message : Option String := none
  last_probe_time : Option Time := none

structure PodStatus where
  phase : Option String := none
  conditions : Option (List PodCondition) := none
  init_container_statuses : Option (List ContainerStatus) := none
  container_statuses : Option (List ContainerStatus) := none

structure Pod where
  metadata : ObjectMeta := {}
  status : Option PodStatus := none

structure Finding where
  code : String
  summary : String
  deriving DecidableEq

def PodStatus.init_containers (status : PodStatus) : List ContainerStatus :=
  status.init_container_statuses.getD []

def PodStatus.containers (status : PodStatus) : List ContainerStatus :=
  status.container_statuses.getD []

def is_ready (status : PodStatus) : Bool :=
  (status.conditions.getD []).any fun c => c.type_ == "Ready" && c.status == "True"

def condition (status : PodStatus) (ty : String) : Option PodCondition :=
  (status.conditions.getD []).find? fun c => c.type_ == ty

/-! ## The rules of a pending pod -/

def unschedulable_finding (status : PodStatus) : Option Finding := do
  let c ← condition status "PodScheduled"
  if c.status = "False" then
    let reason := c.reason.getD "Unschedulable"
    let msg := c.message.getD "No message"
    some ⟨"unschedulable", "Pod is unschedulable: " ++ reason ++ " — " ++ msg⟩
  else none

def taint_finding (status : PodStatus) : Option Finding := do
  let c ← condition status "PodScheduled"
  if c.status ≠ "False" then none
  else
    let msg ← c.message
    if contains (to_ascii_lowercase msg) "untolerated taint" then
      let taint := (((split_text "untolerated taint" msg)[1]?.bind fun s =>
        (split '\x7b' s)[1]?).bind fun s => (split '\x7d' s).head?).map trim
      match taint with
      | some t => some ⟨"taint", "Pod cannot schedule: node taint '" ++ t ++ "' is not tolerated."⟩
      | none => some ⟨"taint", "Pod cannot schedule: a node taint is not tolerated."⟩
    else none

def resource_pressure_finding (status : PodStatus) : Option Finding := do
  let c ← condition status "PodScheduled"
  if c.status ≠ "False" then none
  else
    let msg ← c.message
    let lower := to_ascii_lowercase msg
    if contains lower "insufficient" then
      let word := (split_text "insufficient" lower)[1]?.map fun s =>
        String.ofList ((trim s).toList.takeWhile fun ch => ch.isAlphanum || ch == '-')
      match word.filter fun r => r ≠ "" with
      | some r =>
        some ⟨"resource_pressure", "Pod cannot schedule: insufficient '" ++ r ++ "' on all nodes."⟩
      | none => some ⟨"resource_pressure", "Pod cannot schedule: insufficient node resources."⟩
    else none

def pvc_binding_finding (status : PodStatus) : Option Finding := do
  let c ← condition status "PodScheduled"
  let msg := c.message.getD ""
  let lower := to_ascii_lowercase msg
  if contains lower "persistentvolumeclaim" && contains lower "not found" then
    match (split_text "persistentvolumeclaim" msg)[1]?.bind fun s => (split '"' s)[1]? with
    | some claim => some ⟨"pvc_binding", "Pod cannot bind PVC '" ++ claim ++ "': not found."⟩
    | none => some ⟨"pvc_binding", "Pod cannot bind a persistentvolumeclaim: not found."⟩
  else none

/-! ## The rules of the containers -/

def waiting_reason (cs : ContainerStatus) : Option String :=
  (cs.state.bind ContainerState.waiting).bind ContainerStateWaiting.reason

/-- The first container that cannot pull its image. -/
def image_pull_finding (status : PodStatus) : Option Finding :=
  status.containers.findSome? fun cs =>
    (waiting_reason cs).bind fun reason =>
      if contains reason "ImagePull" || contains reason "ErrImage" then
        some ⟨"image_pull", "Container '" ++ cs.name ++ "' cannot pull its image: " ++ reason⟩
      else none

def readiness_probe_finding (status : PodStatus) : Option Finding := do
  let ready ← condition status "Ready"
  if ready.status = "False" ∧ ready.last_probe_time.isSome then
    let reason := ready.reason.getD "ReadinessProbeFailed"
    let msg := ready.message.getD "no message"
    some ⟨"readiness_probe", "Readiness probe failing: " ++ reason ++ " — " ++ msg⟩
  else none

def container_crash_finding (cs : ContainerStatus) : Option Finding := do
  let state ← cs.state
  let terminated ← state.terminated
  if terminated.exit_code = 0 then none
  else
    some ⟨"crash_loop", "Container '" ++ cs.name ++ "' terminated with exit code " ++
      toString terminated.exit_code ++ " (" ++ terminated.reason.getD "Error" ++
      ") and restart count " ++ toString cs.restart_count ++ "."⟩

def crash_loop_backoff_finding (cs : ContainerStatus) : Option Finding := do
  let reason ← waiting_reason cs
  if !eq_ignore_ascii_case reason "CrashLoopBackOff" && !eq_ignore_ascii_case reason "BackOff" then
    none
  else
    let last ← cs.last_state
    let last_terminated ← last.terminated
    some ⟨"crash_loop_backoff", "Container '" ++ cs.name ++ "' is in " ++ reason ++
      " — last terminated with exit code " ++ toString last_terminated.exit_code ++ " (" ++
      last_terminated.reason.getD "Error" ++ ")."⟩

def container_not_ready_finding (cs : ContainerStatus) : Option Finding :=
  if cs.ready then none
  else
    let state_desc := match cs.state.bind ContainerState.waiting with
      | some waiting => "waiting (" ++ waiting.reason.getD "Waiting" ++ ")"
      | none => "not ready"
    some ⟨"container_not_ready", "Container '" ++ cs.name ++ "' is " ++ state_desc ++ "."⟩

/-- An init container that is not ready always is a finding: it failed, it waits, or it has
not completed. -/
def init_container_finding (cs : ContainerStatus) : Option Finding :=
  if cs.ready then none
  else
    let failed := (cs.state.bind ContainerState.terminated).filter fun t => t.exit_code ≠ 0
    match failed, cs.state.bind ContainerState.waiting with
    | some terminated, _ =>
      some ⟨"init_container_error", "Init container '" ++ cs.name ++ "' failed with exit code " ++
        toString terminated.exit_code ++ " (" ++ terminated.reason.getD "Error" ++ ")."⟩
    | none, some waiting =>
      match waiting.reason with
      | some reason =>
        some ⟨"init_container_waiting", "Init container '" ++ cs.name ++ "' is waiting (" ++
          reason ++ ")."⟩
      | none =>
        some ⟨"init_container_waiting", "Init container '" ++ cs.name ++ "' has not started."⟩
    | none, none =>
      some ⟨"init_container_waiting", "Init container '" ++ cs.name ++ "' has not completed."⟩

/-- The current terminated state, or else the last one. -/
def oom_killed_finding (cs : ContainerStatus) : Option Finding := do
  let terminated ← (cs.state.bind ContainerState.terminated).or
    (cs.last_state.bind ContainerState.terminated)
  if terminated.reason = some "OOMKilled" ∨ terminated.exit_code = 137 then
    some ⟨"oom_killed", "Container '" ++ cs.name ++ "' was OOM-killed (exit code " ++
      toString terminated.exit_code ++ ")."⟩
  else none

/-! ## The diagnosis -/

/-- The first rule that has a finding is the one that is reported. -/
def pending_finding (status : PodStatus) : Finding :=
  ((((((status.init_containers.findSome? init_container_finding).or
    (pvc_binding_finding status)).or (taint_finding status)).or
    (resource_pressure_finding status)).or (unschedulable_finding status)).or
    (image_pull_finding status)).getD
    ⟨"pending", "Pod is Pending but no specific reason is recorded."⟩

/-- A crash loop hides the weaker findings of its container. -/
def container_findings (cs : ContainerStatus) : List Finding :=
  match crash_loop_backoff_finding cs with
  | some f => [f]
  | none => (container_crash_finding cs).toList ++ (container_not_ready_finding cs).toList

def running_findings (status : PodStatus) : List Finding :=
  status.init_containers.filterMap init_container_finding ++
    status.containers.flatMap container_findings ++
    (image_pull_finding status).toList ++ (readiness_probe_finding status).toList ++
    status.containers.filterMap oom_killed_finding

def diagnose (pod : Pod) : List Finding :=
  match pod.status with
  | none => [⟨"no_status", "Pod has no status yet."⟩]
  | some status =>
    if status.phase = some "Pending" then [pending_finding status]
    else
      let findings := running_findings status
      if findings.isEmpty && !is_ready status then
        [⟨"not_ready", "Pod is not ready, but no container-level reason is recorded."⟩]
      else findings

/-! ## Who reads it -/

def Finding.line (f : Finding) : String := f.code ++ ": " ++ f.summary

structure UnhealthyPod where
  namespace_ : String
  name : String
  findings : List String

def Pod.name_any (pod : Pod) : String := (pod.metadata.name.or pod.metadata.generate_name).getD ""

/-- The entry of a pod in the landing view. -/
def Pod.entry (pod : Pod) : UnhealthyPod where
  namespace_ := pod.metadata.namespace_.getD ""
  name := pod.name_any
  findings := (diagnose pod).map Finding.line

def by_namespace_and_name (a b : UnhealthyPod) : Ordering :=
  (compare a.namespace_ b.namespace_).then (compare a.name b.name)

/-- The pods that the landing view lists, of those that the call gave. -/
def unhealthy_pods (std : StableSort) (pods : List Pod) : List UnhealthyPod :=
  std.sort_by by_namespace_and_name
    ((pods.filter fun pod => !(diagnose pod).isEmpty).map Pod.entry)

/-- What the `diagnose` tool answers for a pod. -/
def mcp_diagnose (name : String) (pod : Pod) : String :=
  let findings := diagnose pod
  if findings.isEmpty then name ++ ": ready (no findings)"
  else "\n".intercalate (findings.map Finding.line)

/-! ## Each rule is silent -/

theorem init_container_finding_eq_none (cs : ContainerStatus) :
    init_container_finding cs = none ↔ cs.ready = true := by
  unfold init_container_finding
  cases cs.ready with
  | true => simp
  | false =>
    simp only [Bool.false_eq_true, if_false, iff_false]
    split
    · simp
    · split <;> simp
    · simp

theorem container_not_ready_finding_eq_none (cs : ContainerStatus) :
    container_not_ready_finding cs = none ↔ cs.ready = true := by
  unfold container_not_ready_finding
  cases cs.ready <;> simp

theorem container_crash_finding_eq_none (cs : ContainerStatus) :
    container_crash_finding cs = none ↔
      ∀ t, cs.state.bind ContainerState.terminated = some t → t.exit_code = 0 := by
  unfold container_crash_finding
  cases cs.state with
  | none => simp
  | some state =>
    cases hterminated : state.terminated with
    | none => simp [hterminated]
    | some t => by_cases h0 : t.exit_code = 0 <;> simp [hterminated, h0]

/-- The container waits in a crash loop. -/
def InBackOff (cs : ContainerStatus) : Prop :=
  ∃ reason, waiting_reason cs = some reason ∧
    (eq_ignore_ascii_case reason "CrashLoopBackOff" = true ∨
      eq_ignore_ascii_case reason "BackOff" = true)

theorem crash_loop_backoff_finding_eq_none (cs : ContainerStatus) :
    crash_loop_backoff_finding cs = none ↔
      (InBackOff cs → cs.last_state.bind ContainerState.terminated = none) := by
  unfold crash_loop_backoff_finding InBackOff
  cases waiting_reason cs with
  | none => simp
  | some reason =>
    simp only [Option.some.injEq, exists_eq_left', Option.bind_eq_bind, Option.bind_some]
    generalize eq_ignore_ascii_case reason "CrashLoopBackOff" = crash
    generalize eq_ignore_ascii_case reason "BackOff" = backoff
    cases cs.last_state with
    | none => cases crash <;> cases backoff <;> simp
    | some last =>
      cases hlast : last.terminated with
      | none => cases crash <;> cases backoff <;> simp [hlast]
      | some t => cases crash <;> cases backoff <;> simp [hlast]

/-- The container waits as its image cannot be pulled. -/
def CannotPull (cs : ContainerStatus) : Prop :=
  ∃ reason, waiting_reason cs = some reason ∧
    (contains reason "ImagePull" = true ∨ contains reason "ErrImage" = true)

theorem image_pull_finding_eq_none (status : PodStatus) :
    image_pull_finding status = none ↔ ∀ cs ∈ status.containers, ¬CannotPull cs := by
  unfold image_pull_finding CannotPull
  rw [List.findSome?_eq_none_iff]
  apply forall₂_congr
  intro cs _
  cases waiting_reason cs with
  | none => simp
  | some reason => simp

/-- The state that the memory rule reads. -/
def ContainerStatus.last_end (cs : ContainerStatus) : Option ContainerStateTerminated :=
  (cs.state.bind ContainerState.terminated).or (cs.last_state.bind ContainerState.terminated)

theorem oom_killed_finding_eq_none (cs : ContainerStatus) :
    oom_killed_finding cs = none ↔
      ∀ t, cs.last_end = some t → t.reason ≠ some "OOMKilled" ∧ t.exit_code ≠ 137 := by
  unfold oom_killed_finding ContainerStatus.last_end
  cases (cs.state.bind ContainerState.terminated).or
    (cs.last_state.bind ContainerState.terminated) with
  | none => simp
  | some t => simp [not_or]

/-! ## The diagnosis of a ready pod -/

/-- Nothing in the container statuses looks like a fault, neither now nor in the last state. -/
structure Unremarkable (status : PodStatus) : Prop where
  init_ready : ∀ cs ∈ status.init_containers, cs.ready = true
  ready : ∀ cs ∈ status.containers, cs.ready = true
  exited : ∀ cs ∈ status.containers, ∀ t,
    cs.state.bind ContainerState.terminated = some t → t.exit_code = 0
  pulled : ∀ cs ∈ status.containers, ¬CannotPull cs
  no_backoff : ∀ cs ∈ status.containers, InBackOff cs →
    cs.last_state.bind ContainerState.terminated = none
  not_killed : ∀ cs ∈ status.containers, ∀ t, cs.last_end = some t →
    t.reason ≠ some "OOMKilled" ∧ t.exit_code ≠ 137

theorem container_findings_eq_nil (cs : ContainerStatus) :
    container_findings cs = [] ↔ crash_loop_backoff_finding cs = none ∧
      container_crash_finding cs = none ∧ container_not_ready_finding cs = none := by
  unfold container_findings
  cases crash_loop_backoff_finding cs with
  | none => simp
  | some f => simp

theorem running_findings_eq_nil (status : PodStatus) :
    running_findings status = [] ↔
      Unremarkable status ∧ readiness_probe_finding status = none := by
  unfold running_findings
  simp only [List.append_eq_nil_iff, List.filterMap_eq_nil_iff, List.flatMap_eq_nil_iff,
    Option.toList_eq_nil_iff, init_container_finding_eq_none, container_findings_eq_nil,
    image_pull_finding_eq_none, oom_killed_finding_eq_none, crash_loop_backoff_finding_eq_none,
    container_crash_finding_eq_none, container_not_ready_finding_eq_none]
  constructor
  · rintro ⟨⟨⟨⟨hinit, hcontainers⟩, hpull⟩, hprobe⟩, hoom⟩
    exact ⟨⟨hinit, fun cs hcs => (hcontainers cs hcs).2.2, fun cs hcs => (hcontainers cs hcs).2.1,
      hpull, fun cs hcs => (hcontainers cs hcs).1, hoom⟩, hprobe⟩
  · rintro ⟨⟨hinit, hready, hexited, hpull, hbackoff, hoom⟩, hprobe⟩
    exact ⟨⟨⟨⟨hinit, fun cs hcs => ⟨hbackoff cs hcs, hexited cs hcs, hready cs hcs⟩⟩, hpull⟩,
      hprobe⟩, hoom⟩

/-- The condition that makes the pod ready is the only one of its type. -/
theorem readiness_probe_finding_of_ready {status : PodStatus} (hready : is_ready status = true)
    (hone : ((status.conditions.getD []).filter fun c => c.type_ == "Ready").length ≤ 1) :
    readiness_probe_finding status = none := by
  unfold is_ready at hready
  rw [List.any_eq_true] at hready
  obtain ⟨c, hc, htrue⟩ := hready
  rw [Bool.and_eq_true, beq_iff_eq, beq_iff_eq] at htrue
  have hmem : c ∈ (status.conditions.getD []).filter fun c => c.type_ == "Ready" :=
    List.mem_filter.mpr ⟨hc, by simpa using htrue.1⟩
  obtain ⟨d, hd⟩ : ∃ d, (status.conditions.getD []).filter (fun c => c.type_ == "Ready") = [d] := by
    rw [← List.length_eq_one_iff]
    have hpos := List.length_pos_of_mem hmem
    omega
  rw [hd, List.mem_singleton] at hmem
  subst hmem
  have hcondition : condition status "Ready" = some c := by
    unfold condition
    rw [← List.head?_filter, hd]
    rfl
  unfold readiness_probe_finding
  simp [hcondition, htrue.2]

/-- A pod is listed as unhealthy exactly when it is not ready. -/
structure ListedWhenNotReady (std : StableSort) (pod : Pod) (status : PodStatus) : Prop where
  findings : diagnose pod = [] ↔ is_ready status = true
  overview : ∀ before after, unhealthy_pods std (before ++ pod :: after) ~
    (if is_ready status then [] else [pod.entry]) ++ unhealthy_pods std (before ++ after)
  mcp : ∀ name, mcp_diagnose name pod =
    if is_ready status then name ++ ": ready (no findings)"
    else "\n".intercalate ((diagnose pod).map Finding.line)

theorem listedWhenNotReady_of_findings (std : StableSort) {pod : Pod} {status : PodStatus}
    (h : diagnose pod = [] ↔ is_ready status = true) : ListedWhenNotReady std pod status := by
  have hempty : (diagnose pod).isEmpty = is_ready status := by
    rw [Bool.eq_iff_iff, List.isEmpty_iff, h]
  refine ⟨h, ?_, ?_⟩
  · intro before after
    have hsorted := std.perm by_namespace_and_name
      (((before ++ pod :: after).filter fun pod => !(diagnose pod).isEmpty).map Pod.entry)
    have hrest := std.perm by_namespace_and_name
      (((before ++ after).filter fun pod => !(diagnose pod).isEmpty).map Pod.entry)
    refine hsorted.trans (List.Perm.trans ?_ (hrest.symm.append_left _))
    rw [List.filter_append, List.filter_append, List.map_append, List.map_append]
    cases hready : is_ready status with
    | true =>
      rw [hready] at hempty
      rw [List.filter_cons_of_neg (by simp [hempty])]
      exact List.Perm.refl _
    | false =>
      rw [hready] at hempty
      rw [List.filter_cons_of_pos (by simp [hempty]), List.map_cons]
      exact List.perm_middle
  · intro name
    simp only [mcp_diagnose, hempty]

/-- For a pod with a status, the findings are empty exactly when the pod is ready, unless a
ready pod has a container status that looks like a fault. -/
theorem listed_when_not_ready_iff (std : StableSort) {pod : Pod} {status : PodStatus}
    (hstatus : pod.status = some status)
    (hpending : status.phase = some "Pending" → is_ready status = false)
    (hone : ((status.conditions.getD []).filter fun c => c.type_ == "Ready").length ≤ 1) :
    ListedWhenNotReady std pod status ↔ (is_ready status = true → Unremarkable status) := by
  have hfindings : (diagnose pod = [] ↔ is_ready status = true) ↔
      (is_ready status = true → Unremarkable status) := by
    unfold diagnose
    rw [hstatus]
    dsimp only
    cases hready : is_ready status with
    | false =>
      simp only [Bool.false_eq_true, iff_false, false_implies, iff_true]
      split
      · simp
      · split
        · simp
        · rename_i hnonempty
          simpa using hnonempty
    | true =>
      have hphase : status.phase ≠ some "Pending" := by
        intro hp
        rw [hpending hp] at hready
        cases hready
      simp only [if_neg hphase, Bool.not_true, Bool.and_false, Bool.false_eq_true, if_false,
        iff_true, true_implies, running_findings_eq_nil,
        readiness_probe_finding_of_ready hready hone, and_true]
  rw [← hfindings]
  exact ⟨ListedWhenNotReady.findings, listedWhenNotReady_of_findings std⟩

/-- A ready pod whose one container was killed once and runs again. -/
def recovered_status : PodStatus where
  phase := some "Running"
  conditions := some [{ type_ := "Ready", status := "True" }]
  container_statuses := some [{
    name := "app", ready := true, restart_count := 1, state := some {}
    last_state := some { terminated := some { exit_code := 137, reason := some "OOMKilled" } } }]

theorem a_recovered_pod_is_listed :
    ¬ListedWhenNotReady mergeSort { status := some recovered_status } recovered_status := by
  intro h
  have hempty := h.findings.mpr (by decide)
  have hone : (diagnose { status := some recovered_status }).length = 1 := by decide +kernel
  rw [hempty] at hone
  cases hone

/-- A ready pod that never restarted. -/
def steady_status : PodStatus where
  phase := some "Running"
  conditions := some [{ type_ := "Ready", status := "True" }]
  container_statuses := some [{ name := "app", ready := true, state := some {} }]

theorem a_steady_pod_is_judged :
    ListedWhenNotReady mergeSort { status := some steady_status } steady_status ↔
      (is_ready steady_status = true → Unremarkable steady_status) :=
  listed_when_not_ready_iff mergeSort rfl (by decide) (by decide)

end kaptein_core.diagnostics
