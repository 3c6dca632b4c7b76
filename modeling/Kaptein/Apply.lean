-- The dry runs of a manifest (`apply.rs`): what is sent to the server, and for which object.
import Kaptein.Lib.Text
import Kaptein.Lib.Traced
import Kaptein.Object

open serde_json kube rust_str

namespace kaptein_core.apply

/-- The outcome of a dry run: the object that the server would keep, or its refusal. -/
structure DryRun where
  response_yaml : String
  accepted : Bool

/-- `serde_yaml`, for objects. -/
structure Yaml where
  from_str : String → Except String DynamicObject
  to_string : DynamicObject → Except String String

structure PostParams where
  dry_run : Bool
  field_manager : Option String

structure PatchParams where
  dry_run : Bool
  field_manager : Option String
  force : Bool

inductive Submission where
  | Create (gvk : GroupVersionKind) (namespace_ : Option String) (params : PostParams)
      (obj : DynamicObject)
  | Patch (gvk : GroupVersionKind) (namespace_ : Option String) (name : String)
      (params : PatchParams) (obj : DynamicObject)

/-- The server does not keep what it is sent. -/
def Submission.dry_run : Submission → Bool
  | .Create _ _ params _ => params.dry_run
  | .Patch _ _ _ params _ => params.dry_run

/-- The fields that other managers own are taken from them. -/
def Submission.force : Submission → Bool
  | .Create .. => false
  | .Patch _ _ _ params _ => params.force

inductive ApiError where
  | Api (code : Nat) (message : String)
  | Other (message : String)

def ApiError.text : ApiError → String
  | .Api _ message | .Other message => message

def parse_gvk (api_version kind : String) : GroupVersionKind :=
  match split '/' api_version with
  | [version] => ⟨"", version, kind⟩
  | [group, version] => ⟨group, version, kind⟩
  | _ => ⟨"", "v1", kind⟩

/-- The kind that the manifest itself names. -/
def target_gvk (obj : DynamicObject) : GroupVersionKind :=
  parse_gvk ((obj.types.map TypeMeta.api_version).getD "") ((obj.types.map TypeMeta.kind).getD "")

def patch_params (dry_run force : Bool) : PatchParams where
  dry_run := dry_run
  field_manager := some "kaptein"
  force := force

/-- The keys of the metadata that the server manages, of those that are kept as JSON. -/
def SERVER_MANAGED : List String := ["managedFields", "resourceVersion", "generation", "selfLink"]

/-- `Map::remove`. -/
def remove_keys (keys : List String) (m : Map) : Map := m.filter fun p => !keys.contains p.1

def remove_status : Value → Value
  | .object m => .object (remove_keys ["status"] m)
  | v => v

def strip_server_managed (obj : DynamicObject) : DynamicObject :=
  { obj with
    metadata := { obj.metadata with
      others := remove_keys SERVER_MANAGED obj.metadata.others
      creation_timestamp := none
      uid := none }
    data := remove_status obj.data }

section

variable (yaml : Yaml) (api : Submission → Except ApiError DynamicObject)

/-- The answer of the server. A refusal of the manifest is an outcome, not an error. -/
def dry_run_of (answer : Except ApiError DynamicObject) : Except String DryRun :=
  match answer with
  | .ok obj => (yaml.to_string obj).map fun text => { response_yaml := text, accepted := true }
  | .error (.Api code message) =>
    if code = 422 ∨ code = 400 then
      .ok { response_yaml := "rejected: " ++ message, accepted := false }
    else .error message
  | .error (.Other message) => .error message

def submit (request : Submission) : Traced Submission DryRun := do
  Traced.emit request
  Traced.lift (dry_run_of yaml (api request))

def dry_run_apply (manifest : String) : Traced Submission DryRun := do
  let obj ← Traced.lift (yaml.from_str manifest)
  submit yaml api (.Create (target_gvk obj) obj.metadata.namespace_
    { dry_run := true, field_manager := some "kaptein" } obj)

def apply_patch (manifest : String) (dry_run force : Bool) : Traced Submission DryRun :=
  if force && !dry_run then
    Traced.fail ("refusing to force field ownership on a non-dry-run apply (issue #16): " ++
      "forcing steals field ownership from Flux/Argo/GitOps")
  else do
    let obj ← Traced.lift (yaml.from_str manifest)
    let obj := strip_server_managed obj
    submit yaml api (.Patch (target_gvk obj) obj.metadata.namespace_ obj.name_any
      (patch_params dry_run force) obj)

def dry_run_apply_patch (manifest : String) : Traced Submission DryRun :=
  apply_patch yaml api manifest true true

def apply_patch_real (manifest : String) : Traced Submission DryRun :=
  apply_patch yaml api manifest false false

end

/-! ## What is sent -/

section

variable {yaml : Yaml} {api : Submission → Except ApiError DynamicObject}

theorem mem_submit {request sent : Submission}
    (h : sent ∈ (submit yaml api request).events) : sent = request := by
  have hevents : (submit yaml api request).events = [request] := rfl
  rw [hevents] at h
  exact List.mem_singleton.mp h

/-- Whatever the flags are, what takes fields from other managers is a dry run, and the flag
decides alone whether the server keeps what it is sent. -/
theorem apply_patch_sends {manifest : String} {dry_run force : Bool} {sent : Submission}
    (h : sent ∈ (apply_patch yaml api manifest dry_run force).events) :
    sent.dry_run = dry_run ∧ sent.force = force ∧ (sent.force = true → sent.dry_run = true) := by
  unfold apply_patch at h
  split at h
  · cases h
  · rename_i hflags
    cases hobj : yaml.from_str manifest with
    | error e =>
      rw [hobj, Traced.lift_error_bind] at h
      cases h
    | ok obj =>
      rw [hobj, Traced.lift_ok_bind] at h
      rw [mem_submit h]
      refine ⟨rfl, rfl, ?_⟩
      intro hforce
      have hforce : force = true := hforce
      have hdry : dry_run = true := by simpa [hforce] using hflags
      exact hdry

/-- The two dry runs keep nothing, and the apply that writes takes no field from its manager. -/
theorem dry_runs_keep_nothing {manifest : String} {sent : Submission} :
    (sent ∈ (dry_run_apply yaml api manifest).events → sent.dry_run = true) ∧
    (sent ∈ (dry_run_apply_patch yaml api manifest).events → sent.dry_run = true) ∧
    (sent ∈ (apply_patch_real yaml api manifest).events → sent.force = false) := by
  refine ⟨?_, fun h => (apply_patch_sends h).1, fun h => (apply_patch_sends h).2.1⟩
  intro h
  unfold dry_run_apply at h
  cases hobj : yaml.from_str manifest with
  | error e =>
    rw [hobj, Traced.lift_error_bind] at h
    cases h
  | ok obj =>
    rw [hobj, Traced.lift_ok_bind] at h
    rw [mem_submit h]
    rfl

end

/-! ## What is stripped -/

theorem get_remove_keys (keys : List String) (m : Map) (k : String) :
    Map.get (remove_keys keys m) k = if k ∈ keys then none else Map.get m k := by
  induction m with
  | nil => simp [remove_keys, Map.get]
  | cons p m ih =>
    obtain ⟨k', v⟩ := p
    unfold remove_keys at ih ⊢
    rw [List.filter_cons]
    by_cases hk' : k' ∈ keys
    · rw [if_neg (by simp [hk']), ih, Map.get_cons]
      by_cases hk : k' = k
      · rw [← hk, if_pos hk', if_pos hk']
      · rw [if_neg hk]
    · rw [if_pos (by simp [hk']), Map.get_cons, ih, Map.get_cons]
      by_cases hk : k' = k
      · rw [← hk, if_pos rfl, if_neg hk', if_pos rfl]
      · rw [if_neg hk, if_neg hk]

/-- What is sent in place of an object: the keys that the server manages are gone, and all else
is as it was. -/
structure Stripped (obj sent : DynamicObject) : Prop where
  types : sent.types = obj.types
  name : sent.metadata.name = obj.metadata.name
  generate_name : sent.metadata.generate_name = obj.metadata.generate_name
  namespace_ : sent.metadata.namespace_ = obj.metadata.namespace_
  annotations : sent.metadata.annotations = obj.metadata.annotations
  uid : sent.metadata.uid = none
  creation_timestamp : sent.metadata.creation_timestamp = none
  others : ∀ k, Map.get sent.metadata.others k =
    if k ∈ SERVER_MANAGED then none else Map.get obj.metadata.others k
  data : ∀ k, sent.data.get k = if k = "status" then none else obj.data.get k

theorem stripped (obj : DynamicObject) : Stripped obj (strip_server_managed obj) where
  types := rfl
  name := rfl
  generate_name := rfl
  namespace_ := rfl
  annotations := rfl
  uid := rfl
  creation_timestamp := rfl
  others := get_remove_keys SERVER_MANAGED obj.metadata.others
  data := by
    intro k
    show (remove_status obj.data).get k = _
    cases hdata : obj.data with
    | object m => simp [remove_status, Value.get, get_remove_keys]
    | _ => simp [remove_status, Value.get]

/-- What has been stripped is sent as it is. -/
theorem strip_server_managed_idem (obj : DynamicObject) :
    strip_server_managed (strip_server_managed obj) = strip_server_managed obj := by
  have hkeys : ∀ keys m, remove_keys keys (remove_keys keys m) = remove_keys keys m := by
    intro keys m
    simp [remove_keys, List.filter_filter]
  have hdata : remove_status (remove_status obj.data) = remove_status obj.data := by
    cases obj.data with
    | object m => exact congrArg Value.object (hkeys _ m)
    | _ => rfl
  unfold strip_server_managed
  simp only [hkeys, hdata]

end kaptein_core.apply
