-- The record of a write (`audit_write`). A command makes its record after the
-- core function has returned, and `exec` after it has printed the output as well, so
-- what goes wrong between the call and the record leaves an effect in the cluster without one.
import Kaptein.Cli

open kube kaptein_core
open kaptein_viewmodel.audit

namespace kaptein_core

/-- The object that a call acts on, as a record names it: without its group. A
manifest names its own objects, and there is no record of it. -/
def Call.target : Call → ResourceRef
  | .delete gvk namespace_ name _ _ | .patch_scale gvk namespace_ name _ _ =>
    { group := "", kind := gvk.kind, namespace_ := namespace_.getD "", name }
  | .restart kind namespace_ name => { group := "", kind, namespace_, name }
  | .cordon name | .uncordon name => { group := "", kind := "Node", namespace_ := "", name }
  | .evict namespace_ name => { group := "", kind := "Pod", namespace_, name }
  | .replace_ephemeral_containers namespace_ pod _ | .exec namespace_ pod _ _ _
  | .portforward namespace_ pod _ => { group := "", kind := "Pod", namespace_, name := pod }
  | .create .. | .apply .. => { group := "", kind := "", namespace_ := "", name := "" }

/-- Nothing goes wrong after the call: the server answers it, and for a command
in a container its streams are read to their ends and no failure is reported. -/
def Cluster.Finishes (cluster : Cluster) (c : Call) : Prop :=
  (cluster.react c).answer = .ok () ∧
    match c with
    | .exec _ _ _ _ false =>
      (∃ out, read_stream cluster.attached.stdout = .ok out) ∧
        (∃ err, read_stream cluster.attached.stderr = .ok err) ∧
        cluster.attached.join = .ok () ∧ check_status cluster.attached = .ok ()
    | .exec _ _ _ _ true =>
      cluster.attached.stdin = true ∧ cluster.attached.stdout.isSome = true ∧
        cluster.attached.stdin_to_pod = .ok () ∧ cluster.attached.pod_to_local = .ok () ∧
        cluster.attached.join = .ok ()
    | _ => True

end kaptein_core

namespace kaptein_cli

/-- Every governed operation that took effect in the run has its record in the
run, under the operation and the object of the call. -/
def Recorded (x : Traced Event Unit) : Prop :=
  ∀ c op, .act (.call c true) ∈ x.events → c.operation = some op → op.is_governed = true →
    ∃ e, .audited e ∈ x.events ∧ e.operation = op ∧ e.target = c.target

/-! ## The call of a confirmed write -/

/-- The call that a confirmed write comes to behind its gate. A kind that cannot
be parsed or restarted makes none, and neither does a pod that cannot be read. -/
def Command.call (env : Env) : Command → Option Call
  | .Exec pod namespace_ container command tty true _ =>
    some (.exec namespace_ pod command container tty)
  | .Delete gvk name namespace_ cascade true _ =>
    (parse_gvk gvk).result.toOption.bind fun gvk =>
      some (.delete gvk namespace_ name (parse_propagation cascade) false)
  | .Scale gvk name namespace_ replicas true _ =>
    (parse_gvk gvk).result.toOption.bind fun gvk =>
      some (.patch_scale gvk (some namespace_) name replicas false)
  | .Restart gvk name namespace_ true _ =>
    (parse_gvk gvk).result.toOption.bind fun gvk =>
      if gvk.kind ∈ ["Deployment", "StatefulSet", "DaemonSet"] then
        some (.restart gvk.kind namespace_ name)
      else none
  | .Cordon name true _ => some (.cordon name)
  | .Uncordon name true _ => some (.uncordon name)
  | .Evict name namespace_ true _ => some (.evict namespace_ name)
  | .Debug pod namespace_ name image command true _ =>
    (get_ephemeral_containers env.cluster namespace_ pod).result.toOption.map fun _ =>
      .replace_ephemeral_containers namespace_ pod
        (env.cluster.ephemeral_containers.getD [] ++
          [{ name, image := some image, command := if command = [] then none else some command }])
  | _ => none

def Env.passes_gate (env : Env) (reason : Option String) : Prop :=
  ∃ ctx, env.current_context_name = .ok ctx ∧
    guardrails.gate_write (env.guardrails.classify env.regex ctx) reason = .ok ()

/-- The core function returns, and what a command in a container has printed can be printed
here. The terminal of a tty is written to by the core function itself. -/
def Env.Finishes (env : Env) (c : Call) : Prop :=
  env.cluster.Finishes c ∧
    match c with
    | .exec _ _ _ _ false => ∀ out err, read_stream env.cluster.attached.stdout = .ok out →
        read_stream env.cluster.attached.stderr = .ok err → env.print (out ++ err) = .ok ()
    | _ => True

/-- The call is made and takes effect, and something goes wrong before the record. -/
def Env.LosesCall (env : Env) (call : Option Call) : Prop :=
  ∃ c, call = some c ∧ (env.cluster.react c).took_effect = true ∧ ¬ env.Finishes c

/-- The write passes the gate, and loses its call behind it. -/
def loses_its_record (env : Env) (command : Command) : Prop :=
  env.client = .ok () ∧ env.passes_gate command.break_glass ∧ env.LosesCall (command.call env)

/-! ## Parts of a run -/

/-- A part that performs nothing governed and records nothing. -/
def Quiet {α : Type} (x : Traced Event α) : Prop :=
  Traced.Never (fun e => e.governed ∨ ∃ a, e = .audited a) x

theorem quiet_of_no_events {α : Type} {x : Traced Event α} (h : x.events = []) : Quiet x :=
  Traced.never_of_no_events h

theorem quiet_gate_write (env : Env) (reason : Option String) : Quiet (gate_write env reason) := by
  refine Traced.never_bind (Traced.never_lift _) fun _ => ?_
  refine Traced.never_bind (Traced.never_lift _) fun _ => Traced.never_emit ?_
  rintro (h | ⟨_, h⟩)
  · exact h
  · cases h

theorem gate_write_result (env : Env) (reason : Option String) :
    (∃ u, (gate_write env reason).result = .ok u) ↔ env.passes_gate reason := by
  unfold gate_write Env.passes_gate
  cases hctx : env.current_context_name with
  | error msg => simp
  | ok ctx =>
    rw [Traced.lift_ok_bind]
    cases hgate : guardrails.gate_write (env.guardrails.classify env.regex ctx) reason with
    | error msg => simp [hgate]
    | ok _ => simp [hgate]

theorem recorded_of_harmless {x : Traced Event Unit} (h : Harmless x) : Recorded x := by
  intro c op hc hop hgov
  exact absurd ⟨rfl, op, hop, hgov⟩ (h _ hc)

/-- A quiet part may stand before. -/
theorem recorded_bind_of_quiet {α : Type} {x : Traced Event α} {f : α → Traced Event Unit}
    (hx : Quiet x) :
    Recorded (x >>= f) ↔ ∀ a, x.result = .ok a → Recorded (f a) := by
  cases hr : x.result with
  | error msg =>
    refine iff_of_true (recorded_of_harmless ?_) (by intro a h; cases h)
    rw [Traced.bind_error hr]
    exact fun e he hgov => hx e he (Or.inl hgov)
  | ok a =>
    simp only [Except.ok.injEq, forall_eq']
    rw [Traced.bind_ok hr]
    have hact : ∀ c, .act (.call c true) ∈ x.events → ∀ op, c.operation = some op →
        op.is_governed = true → False :=
      fun c hc op hop hgov => hx _ hc (Or.inl ⟨rfl, op, hop, hgov⟩)
    constructor
    · intro h c op hc hop hgov
      obtain ⟨e, he, hrec⟩ := h c op (List.mem_append_right _ hc) hop hgov
      rcases List.mem_append.mp he with he | he
      · exact absurd (Or.inr ⟨e, rfl⟩) (hx _ he)
      · exact ⟨e, he, hrec⟩
    · intro h c op hc hop hgov
      rcases List.mem_append.mp hc with hc | hc
      · exact absurd (hact c hc op hop hgov) id
      · obtain ⟨e, he, hrec⟩ := h c op hc hop hgov
        exact ⟨e, List.mem_append_right _ he, hrec⟩

/-- A core function whose one governed act is the call `c`. -/
structure Performs {α : Type} (cluster : Cluster) (w : Traced Act α) (c : Call) : Prop where
  act : ∀ a ∈ w.events, a.governed → a = .call c (cluster.react c).took_effect
  took : .call c (cluster.react c).took_effect ∈ w.events
  finishes : (∃ a, w.result = .ok a) ↔ cluster.Finishes c

/-- A run that ends between the call and the record. -/
theorem recorded_without_record_iff {α : Type} {cluster : Cluster} {w : Traced Act α} {c : Call}
    {op : Operation} {x : Traced Event Unit} (hw : Performs cluster w c)
    (hop : c.operation = some op) (hgov : op.is_governed = true)
    (hx : x.events = w.events.map .act) :
    Recorded x ↔ ¬ (cluster.react c).took_effect = true := by
  constructor
  · intro h htook
    have hmem : .act (.call c true) ∈ x.events := by
      rw [hx]
      exact List.mem_map_of_mem (htook ▸ hw.took)
    obtain ⟨e, he, _⟩ := h c op hmem hop hgov
    rw [hx] at he
    obtain ⟨a, _, ha⟩ := List.mem_map.mp he
    cases ha
  · intro h
    refine recorded_of_harmless ?_
    intro e he hact
    rw [hx] at he
    obtain ⟨a, ha, rfl⟩ := List.mem_map.mp he
    obtain rfl := hw.act a ha hact
    exact h hact.1

/-- The record comes after the core function and after what is printed of its result: it is made
exactly where both end well. -/
theorem recorded_write_iff {α : Type} {cluster : Cluster} {w : Traced Act α} {c : Call}
    {op : Operation} {shown : α → Except String Unit} {f : α → Traced Event Unit}
    (hw : Performs cluster w c) (hop : c.operation = some op) (hgov : op.is_governed = true)
    (hf : ∀ a, ∃ e, (f a).events = [.audited e] ∧ e.operation = op ∧ e.target = c.target) :
    Recorded (core w >>= fun a => Traced.lift (shown a) >>= fun _ => f a) ↔
      ((cluster.react c).took_effect = true → ∃ a, w.result = .ok a ∧ shown a = .ok ()) := by
  cases hr : w.result with
  | error msg =>
    have hcore : (core w).result = .error msg := hr
    rw [Traced.bind_error hcore]
    refine (recorded_without_record_iff hw hop hgov rfl).trans ?_
    simp
  | ok a =>
    have hcore : (core w).result = .ok a := hr
    rw [Traced.bind_ok hcore]
    cases hshown : shown a with
    | error msg =>
      rw [Traced.lift_error_bind]
      refine (recorded_without_record_iff hw hop hgov (List.append_nil _)).trans ?_
      simp [hshown]
    | ok _ =>
      rw [Traced.lift_ok_bind]
      refine iff_of_true ?_ (fun _ => ⟨a, rfl, hshown⟩)
      obtain ⟨e, he, hrec⟩ := hf a
      rw [he]
      intro c' op' hc' hop' hgov'
      have hmem : .call c' true ∈ w.events := by
        simpa [core, Traced.map_events] using hc'
      obtain rfl : c' = c := (Act.call.inj (hw.act _ hmem ⟨rfl, op', hop', hgov'⟩)).1
      rw [hop, Option.some.injEq] at hop'
      subst hop'
      exact ⟨e, List.mem_append_right _ List.mem_cons_self, hrec⟩

/-! ## The core functions -/

section Performs

variable {α : Type} {cluster : Cluster} {c : Call}

theorem perform_bind_error {msg : String} (h : (cluster.react c).answer = .error msg)
    (f : Unit → Traced Act α) :
    (perform cluster c >>= f) =
      { events := [.call c (cluster.react c).took_effect], result := .error msg } := by
  have hr : (perform cluster c).result = .error msg := by simp [perform, Traced.bind_ok, h]
  rw [Traced.bind_error hr]
  simp [perform, Traced.bind_ok]

theorem perform_bind_ok (h : (cluster.react c).answer = .ok ()) (f : Unit → Traced Act α) :
    (perform cluster c >>= f) =
      { events := .call c (cluster.react c).took_effect :: (f ()).events
        result := (f ()).result } := by
  have hr : (perform cluster c).result = .ok () := by simp [perform, Traced.bind_ok, h]
  rw [Traced.bind_ok hr]
  simp [perform, Traced.bind_ok]

/-- A core function that does nothing after its call but to look at the answer. -/
theorem performs_of_perform {f : Unit → Traced Act α} (hf : (f ()).events = [])
    (hfin : (cluster.react c).answer = .ok () →
      ((∃ a, (f ()).result = .ok a) ↔ cluster.Finishes c)) :
    Performs cluster (perform cluster c >>= f) c := by
  cases h : (cluster.react c).answer with
  | error msg =>
    rw [perform_bind_error h]
    refine ⟨fun a ha _ => List.mem_singleton.mp ha, List.mem_cons_self, ?_⟩
    refine iff_of_false (by simp) ?_
    rintro ⟨hok, _⟩
    rw [h] at hok
    cases hok
  | ok _ =>
    rw [perform_bind_ok h, hf]
    exact ⟨fun a ha _ => List.mem_singleton.mp ha, List.mem_cons_self, hfin h⟩

/-- Any call but that of a command in a container finishes with its answer. -/
theorem finishes_of_answer (h : (cluster.react c).answer = .ok ())
    (hc : c.operation ≠ some .Exec) : cluster.Finishes c := by
  refine ⟨h, ?_⟩
  cases c with
  | exec => exact absurd rfl hc
  | _ => trivial

theorem performs_then_pure (hc : c.operation ≠ some .Exec) (out : α) :
    Performs cluster (perform cluster c >>= fun _ => pure out) c :=
  performs_of_perform rfl fun h => iff_of_true ⟨out, rfl⟩ (finishes_of_answer h hc)

theorem exec_performs (cluster : Cluster) (namespace_ pod : String) (command : List String)
    (container : Option String) :
    Performs cluster (exec cluster namespace_ pod command container)
      (.exec namespace_ pod command container false) := by
  refine performs_of_perform ?_ fun h => ?_
  · cases read_stream cluster.attached.stdout <;> cases read_stream cluster.attached.stderr <;>
      cases cluster.attached.join <;> cases check_status cluster.attached <;> rfl
  · unfold Cluster.Finishes
    simp only [h, true_and]
    cases read_stream cluster.attached.stdout <;> cases read_stream cluster.attached.stderr <;>
      cases cluster.attached.join <;> cases check_status cluster.attached <;> simp

/-- What a command in a container has printed: its standard output, then its errors. -/
theorem exec_result {namespace_ pod : String} {command : List String} {container : Option String}
    {output : String} :
    (exec cluster namespace_ pod command container).result = .ok output ↔
      cluster.Finishes (.exec namespace_ pod command container false) ∧
        ∃ out err, read_stream cluster.attached.stdout = .ok out ∧
          read_stream cluster.attached.stderr = .ok err ∧ out ++ err = output := by
  unfold exec Cluster.Finishes
  cases h : (cluster.react (.exec namespace_ pod command container false)).answer with
  | error msg => simp [perform_bind_error h]
  | ok _ =>
    rw [perform_bind_ok h]
    cases read_stream cluster.attached.stdout <;> cases read_stream cluster.attached.stderr <;>
      cases cluster.attached.join <;> cases check_status cluster.attached <;> simp

theorem exec_tty_performs (cluster : Cluster) (namespace_ pod : String) (command : List String)
    (container : Option String) :
    Performs cluster (exec_tty cluster namespace_ pod command container)
      (.exec namespace_ pod command container true) := by
  refine performs_of_perform ?_ fun h => ?_
  · cases cluster.attached.stdin <;> cases cluster.attached.stdout <;>
      cases cluster.attached.stdin_to_pod <;> cases cluster.attached.pod_to_local <;> rfl
  · unfold Cluster.Finishes
    simp only [h, true_and]
    cases cluster.attached.stdin <;> cases cluster.attached.stdout <;>
      cases cluster.attached.stdin_to_pod <;> cases cluster.attached.pod_to_local <;>
      cases cluster.attached.join <;> simp [Traced.ensure]

/-- A pod that can be read gets its container. -/
theorem add_performs (cluster : Cluster) {namespace_ pod : String} (name image : String)
    (command : List String)
    (h : (get_ephemeral_containers cluster namespace_ pod).result = .ok ()) :
    Performs cluster (add cluster namespace_ pod name image command true)
      (.replace_ephemeral_containers namespace_ pod
        (cluster.ephemeral_containers.getD [] ++
          [{ name, image := some image
             command := if command = [] then none else some command }])) := by
  have hadd := @performs_then_pure _ cluster
    (.replace_ephemeral_containers namespace_ pod (cluster.ephemeral_containers.getD [] ++
      [{ name, image := some image, command := if command = [] then none else some command }]))
    (by simp [Call.operation])
    ("attached ephemeral container '" ++ name ++ "' (" ++ image ++ ") to " ++ namespace_ ++ "/" ++
      pod)
  obtain ⟨hact, htook, hfin⟩ := hadd
  unfold add
  simp only [Bool.not_true, Bool.false_eq_true, if_false]
  rw [Traced.bind_ok h]
  refine ⟨?_, List.mem_append_right _ htook, hfin⟩
  intro a ha hgov
  rcases List.mem_append.mp ha with ha | ha
  · exact absurd hgov (get_ephemeral_containers_ungoverned a ha)
  · exact hact a ha hgov

theorem restart_supported {cluster : Cluster} {gvk : GroupVersionKind} {name namespace_ : String}
    (h : gvk.kind ∈ ["Deployment", "StatefulSet", "DaemonSet"]) :
    restart cluster gvk name namespace_ =
      (perform cluster (.restart gvk.kind namespace_ name) >>= fun _ =>
        pure ("restarted " ++ name ++
          " (annotated the pod template with kube.kubernetes.io/restartedAt)")) := by
  obtain ⟨group, version, kind⟩ := gvk
  simp only [List.mem_cons, List.not_mem_nil, or_false] at h
  rcases h with rfl | rfl | rfl <;> rfl

theorem restart_unsupported {cluster : Cluster} {gvk : GroupVersionKind} {name namespace_ : String}
    (h : gvk.kind ∉ ["Deployment", "StatefulSet", "DaemonSet"]) :
    ∃ msg, restart cluster gvk name namespace_ = Traced.fail msg := by
  simp only [List.mem_cons, List.not_mem_nil, or_false, not_or] at h
  obtain ⟨h1, h2, h3⟩ := h
  unfold restart
  split
  · exact absurd ‹_› h1
  · exact absurd ‹_› h2
  · exact absurd ‹_› h3
  · exact ⟨_, rfl⟩

end Performs

/-! ## The commands -/

section Commands

variable (env : Env) {reason : Option String}

/-- What is lost behind the gate is lost where the client is built and the gate passed. -/
theorem recorded_behind_gate_iff {f : Unit → Traced Event Unit} {Lost : Prop}
    (h : Recorded (f ()) ↔ ¬ Lost) :
    Recorded (Traced.lift env.client >>= fun _ => gate_write env reason >>= f) ↔
      ¬ (env.client = .ok () ∧ env.passes_gate reason ∧ Lost) := by
  rw [recorded_bind_of_quiet (quiet_of_no_events rfl), ← gate_write_result]
  simp only [recorded_bind_of_quiet (quiet_gate_write env reason), h]
  constructor
  · rintro hrec ⟨hclient, ⟨u, hgate⟩, hlost⟩
    exact hrec () hclient u hgate hlost
  · rintro hno _ hclient u hgate hlost
    exact hno ⟨hclient, ⟨u, hgate⟩, hlost⟩

theorem not_losesCall_some (c : Call) :
    ((env.cluster.react c).took_effect = true → env.Finishes c) ↔
      ¬ env.LosesCall (some c) := by
  simp [Env.LosesCall]

/-- A write with its record right after it keeps the record unless its call is lost. -/
theorem recorded_call_iff {α : Type} {w : Traced Act α} {c : Call} {op : Operation}
    {f : α → Traced Event Unit} (hw : Performs env.cluster w c)
    (hfin : env.Finishes c ↔ env.cluster.Finishes c)
    (hop : c.operation = some op) (hgov : op.is_governed = true)
    (hf : ∀ a, ∃ e, (f a).events = [.audited e] ∧ e.operation = op ∧ e.target = c.target) :
    Recorded (core w >>= f) ↔ ¬ env.LosesCall (some c) := by
  rw [← not_losesCall_some, hfin, ← hw.finishes]
  have hwrite := @recorded_write_iff _ _ _ _ _ (fun _ => .ok ()) _ hw hop hgov hf
  simpa only [Traced.lift_ok_bind, and_true] using hwrite

/-- A command in a container prints its output before its record. -/
theorem recorded_exec_iff {namespace_ pod : String} {command : List String}
    {container : Option String} {f : Unit → Traced Event Unit}
    (hf : ∃ e, (f ()).events = [.audited e] ∧ e.operation = .Exec ∧
      e.target = (Call.exec namespace_ pod command container false).target) :
    Recorded (exec_in_pod env pod namespace_ container command false >>= f) ↔
      ¬ env.LosesCall (some (.exec namespace_ pod command container false)) := by
  have hw := exec_performs env.cluster namespace_ pod command container
  have hfin : (∃ output, (exec env.cluster namespace_ pod command container).result = .ok output ∧
      env.print output = .ok ()) ↔
        env.Finishes (.exec namespace_ pod command container false) := by
    simp only [exec_result]
    constructor
    · rintro ⟨output, ⟨hfin, out, err, hout, herr, rfl⟩, hprint⟩
      refine ⟨hfin, fun out' err' hout' herr' => ?_⟩
      rw [hout] at hout'
      rw [herr] at herr'
      cases hout'
      cases herr'
      exact hprint
    · rintro ⟨hfin, hprint⟩
      obtain ⟨⟨out, hout⟩, ⟨err, herr⟩, -⟩ := hfin.2
      exact ⟨out ++ err, ⟨hfin, out, err, hout, herr, rfl⟩, hprint out err hout herr⟩
  rw [← not_losesCall_some, ← hfin]
  unfold exec_in_pod
  simp only [Bool.false_eq_true, if_false]
  rw [Traced.bind_assoc]
  exact recorded_write_iff hw rfl rfl fun _ => hf

theorem not_losesCall_none : ¬ env.LosesCall none := by
  simp [Env.LosesCall]

/-- A command on a kind makes its call only for a kind that can be parsed. -/
theorem recorded_of_gvk_iff (gvk : String) {f : GroupVersionKind → Traced Event Unit}
    {call : GroupVersionKind → Option Call}
    (h : ∀ g, Recorded (f g) ↔ ¬ env.LosesCall (call g)) :
    Recorded (parse_gvk gvk >>= f) ↔
      ¬ env.LosesCall ((parse_gvk gvk).result.toOption.bind call) := by
  have hquiet : Quiet (parse_gvk gvk) := by
    unfold parse_gvk
    split <;> exact quiet_of_no_events rfl
  rw [recorded_bind_of_quiet hquiet]
  cases (parse_gvk gvk).result with
  | error msg =>
    refine iff_of_true ?_ (not_losesCall_none env)
    intro g hg
    cases hg
  | ok g =>
    simp only [Except.ok.injEq, forall_eq', h]
    rfl

/-- The record of a forward is its first event, before any stream is asked for. -/
theorem port_forward_recorded (pod ns : String) (port local_ : Nat) (name : Option String) :
    Recorded (run env (.PortForward pod ns port local_ name)) := by
  refine (recorded_bind_of_quiet (quiet_of_no_events rfl)).mpr fun _ _ => ?_
  refine (recorded_bind_of_quiet (quiet_of_no_events rfl)).mpr fun _ _ => ?_
  refine (recorded_bind_of_quiet (quiet_of_no_events rfl)).mpr fun _ _ => ?_
  have hserve : (core (serve env.cluster ns pod port) >>= fun _ =>
      Traced.lift env.ctrl_c).events =
      env.cluster.tunnels.map fun opened => .act (.call (.portforward ns pod port) opened) := by
    have hevents : (core (serve env.cluster ns pod port)).events =
        env.cluster.tunnels.map fun opened => .act (.call (.portforward ns pod port) opened) := by
      change (serve env.cluster ns pod port).events.map Event.act = _
      rw [serve_events, List.map_map]
      rfl
    cases hr : (core (serve env.cluster ns pod port)).result with
    | error msg => rw [Traced.bind_error hr, hevents]
    | ok _ => rw [Traced.bind_ok hr, hevents, Traced.lift_events, List.append_nil]
  unfold audit_write
  rw [Traced.bind_ok (Traced.emit_result _), hserve]
  intro c op hc hop _
  refine ⟨_, List.mem_cons_self, ?_⟩
  rcases List.mem_cons.mp hc with hc | hc
  · cases hc
  · obtain ⟨opened, _, hcall⟩ := List.mem_map.mp hc
    cases hcall
    exact ⟨Option.some.inj hop, rfl⟩

/-- A confirmed write keeps its record unless its call takes effect and does not finish. -/
theorem confirmed_recorded_iff (command : Command) (h : command.confirmed = true) :
    Recorded (run env command) ↔ ¬ loses_its_record env command := by
  cases command with
  | Exec pod ns container argv tty confirm reason =>
    obtain rfl : confirm = true := h
    refine recorded_behind_gate_iff env ?_
    cases tty with
    | true =>
      exact recorded_call_iff env (exec_tty_performs env.cluster ns pod argv container)
        (and_iff_left trivial) rfl rfl fun _ => ⟨_, rfl, rfl, rfl⟩
    | false =>
      exact recorded_exec_iff env ⟨_, rfl, rfl, rfl⟩
  | Delete gvk name ns cascade confirm reason =>
    obtain rfl : confirm = true := h
    refine recorded_behind_gate_iff env (recorded_of_gvk_iff env gvk fun g => ?_)
    exact recorded_call_iff env (performs_then_pure (by simp [Call.operation]) _)
      (and_iff_left trivial) rfl rfl fun _ => ⟨_, rfl, rfl, rfl⟩
  | Scale gvk name ns replicas confirm reason =>
    obtain rfl : confirm = true := h
    refine recorded_behind_gate_iff env (recorded_of_gvk_iff env gvk fun g => ?_)
    exact recorded_call_iff env (performs_then_pure (by simp [Call.operation]) _)
      (and_iff_left trivial) rfl rfl fun _ => ⟨_, rfl, rfl, rfl⟩
  | Restart gvk name ns confirm reason =>
    obtain rfl : confirm = true := h
    refine recorded_behind_gate_iff env (recorded_of_gvk_iff env gvk fun g => ?_)
    by_cases hk : g.kind ∈ ["Deployment", "StatefulSet", "DaemonSet"]
    · rw [if_pos hk, restart_supported hk]
      exact recorded_call_iff env (performs_then_pure (by simp [Call.operation]) _)
        (and_iff_left trivial) rfl rfl fun _ => ⟨_, rfl, rfl, rfl⟩
    · rw [if_neg hk]
      obtain ⟨msg, hfail⟩ := @restart_unsupported env.cluster _ name ns hk
      refine iff_of_true ?_ (not_losesCall_none env)
      rw [hfail]
      exact recorded_of_harmless (Traced.never_of_no_events rfl)
  | Cordon name confirm reason =>
    obtain rfl : confirm = true := h
    refine recorded_behind_gate_iff env ?_
    exact recorded_call_iff env (performs_then_pure (by simp [Call.operation]) _)
      (and_iff_left trivial) rfl rfl fun _ => ⟨_, rfl, rfl, rfl⟩
  | Uncordon name confirm reason =>
    obtain rfl : confirm = true := h
    refine recorded_behind_gate_iff env ?_
    exact recorded_call_iff env (performs_then_pure (by simp [Call.operation]) _)
      (and_iff_left trivial) rfl rfl fun _ => ⟨_, rfl, rfl, rfl⟩
  | Evict name ns confirm reason =>
    obtain rfl : confirm = true := h
    refine recorded_behind_gate_iff env ?_
    exact recorded_call_iff env (performs_then_pure (by simp [Call.operation]) _)
      (and_iff_left trivial) rfl rfl fun _ => ⟨_, rfl, rfl, rfl⟩
  | Debug pod ns name image argv confirm reason =>
    obtain rfl : confirm = true := h
    refine recorded_behind_gate_iff env ?_
    change Recorded (core (add env.cluster ns pod name image argv true) >>= fun _ =>
      audit_write env .EphemeralAttach "Pod" ns pod .Applied reason) ↔ _
    cases hread : (get_ephemeral_containers env.cluster ns pod).result with
    | error msg =>
      have hcall : Command.call env (.Debug pod ns name image argv true reason) = none := by
        simp [Command.call, hread, Except.toOption]
      have hadd : add env.cluster ns pod name image argv true =
          { events := (get_ephemeral_containers env.cluster ns pod).events
            result := .error msg } := Traced.bind_error hread _
      rw [hcall]
      refine iff_of_true (recorded_of_harmless ?_) (not_losesCall_none env)
      refine Traced.never_bind ?_ fun _ => audit_write_harmless
      rw [hadd]
      exact core_harmless fun a ha => get_ephemeral_containers_ungoverned a ha
    | ok _ =>
      have hcall : Command.call env (.Debug pod ns name image argv true reason) =
          some (.replace_ephemeral_containers ns pod
            (env.cluster.ephemeral_containers.getD [] ++
              [{ name, image := some image,
                 command := if argv = [] then none else some argv }])) := by
        simp [Command.call, hread, Except.toOption]
      rw [hcall]
      exact recorded_call_iff env (add_performs env.cluster name image argv hread)
        (and_iff_left trivial) rfl rfl fun _ => ⟨_, rfl, rfl, rfl⟩
  | _ => cases h

end Commands

/-- The effects of a run are recorded exactly where the command does not lose its record. -/
theorem every_effect_is_recorded_iff (env : Env) (command : Command) :
    Recorded (run env command) ↔ ¬ loses_its_record env command := by
  cases hc : command.confirmed with
  | true => exact confirmed_recorded_iff env command hc
  | false =>
    have hcall : command.call env = none := by
      unfold Command.call
      split <;> first | rfl | cases hc
    refine iff_of_true ?_ ?_
    · cases command with
      | PortForward pod ns port local_ name =>
        exact port_forward_recorded env pod ns port local_ name
      | _ => exact recorded_of_harmless (unconfirmed_harmless env _ nofun hc)
    · rintro ⟨_, _, hlost⟩
      rw [hcall] at hlost
      exact not_losesCall_none env hlost

/-- A cluster that runs a command in a container, which ends with an error. -/
def failing_exec_env : Env :=
  { prod_env with
    guardrails := { prod := [], staging := ["prod-eu"] }
    cluster := { prod_env.cluster with
      attached := { prod_env.cluster.attached with
        take_status := some (some {
          status := some "Failure", reason := some "NonZeroExitCode"
          message := some "command terminated with exit code 1" }) } } }

/-- The command has run in the pod, and there is no record of any operation. -/
theorem an_exec_that_fails_is_not_recorded :
    ¬ Recorded (run failing_exec_env
      (.Exec "web" "default" none ["rm", "-r", "/data"] false true none)) ∧
    .act (.call (.exec "default" "web" ["rm", "-r", "/data"] none false) true) ∈
      (run failing_exec_env
        (.Exec "web" "default" none ["rm", "-r", "/data"] false true none)).events ∧
    ∀ e, .audited e ∉ (run failing_exec_env
      (.Exec "web" "default" none ["rm", "-r", "/data"] false true none)).events := by
  have hevents : (run failing_exec_env
      (.Exec "web" "default" none ["rm", "-r", "/data"] false true none)).events =
      [.gate_ok .Staging none,
        .act (.call (.exec "default" "web" ["rm", "-r", "/data"] none false) true)] := by
    decide
  have hno : ∀ e, .audited e ∉ (run failing_exec_env
      (.Exec "web" "default" none ["rm", "-r", "/data"] false true none)).events := by
    rw [hevents]
    intro e he
    simp at he
  refine ⟨?_, ?_, hno⟩
  · intro h
    obtain ⟨e, he, _⟩ := h (.exec "default" "web" ["rm", "-r", "/data"] none false) .Exec
      (by rw [hevents]; simp) rfl rfl
    exact hno e he
  · rw [hevents]
    simp

end kaptein_cli
