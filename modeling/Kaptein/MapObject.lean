-- One object as one row: the built-in columns, or the columns of a lens
-- over the redacted object (`discovery.rs` and the integration layer).
import Kaptein.Redact
import Kaptein.Lens

open serde_json kube

namespace kaptein_core.discovery

structure ResourceSummary where
  name : String
  namespace_ : String
  kind : String
  uid : Option String
  created : Option Time
  status : String

/-- The status of a pod is its phase. Every other kind is left to a lens. -/
def status_of (kind : String) (obj : DynamicObject) : String :=
  if kind = "Pod" then
    (((obj.data.get "status").bind fun s => s.get "phase").bind Value.as_str).getD "Unknown"
  else ""

def summary_of (obj : DynamicObject) (gvk : GroupVersionKind) : ResourceSummary :=
  let kind := (obj.types.map TypeMeta.kind).getD gvk.kind
  { name := obj.name_any
    namespace_ := obj.metadata.namespace_.getD ""
    kind
    uid := obj.metadata.uid
    created := obj.metadata.creation_timestamp
    status := status_of kind obj }

end kaptein_core.discovery

open kaptein_core.redact kaptein_core.discovery kaptein_viewmodel kaptein_viewmodel.lens

namespace kaptein_integration

def status_level (status : String) : StatusLevel :=
  if status = "Running" ∨ status = "Active" ∨ status = "Ready" then .Ok
  else if status = "Pending" ∨ status = "ContainerCreating" then .Pending
  else if status = "" then .Info
  else .Warning

def resource_row (summary : ResourceSummary) : Row :=
  { id := summary.uid.getD
      (if summary.namespace_ = "" then summary.name
        else summary.namespace_ ++ "/" ++ summary.name)
    cells :=
      [.Text summary.name, .Text summary.namespace_,
        .Status (status_level summary.status) summary.status,
        .Timestamp ((summary.created.map Time.as_millisecond).getD 0)] }

/-! ## A lens that shows a Secret -/

/-- A lens with one column, bound to a value inside `data`. -/
def username_lens : ViewDefinition :=
  { columns := [{ id := "username", kind := .Text, field := some "data.username" }] }

/-- A Secret with one value, and with the type fields that the list gave it. -/
def one_secret (types : Option TypeMeta) (value : String) : DynamicObject :=
  { types
    metadata := { name := some "db" }
    data := .object [("data", .object [("username", .string value)])] }

theorem one_secret_equal_but_secrets (types : Option TypeMeta) (a b : String) :
    EqualButSecrets (one_secret types a) (one_secret types b) := by
  refine ⟨rfl, rfl, Or.inr ⟨_, _, rfl, rfl, ?_⟩⟩
  refine List.Forall₂.cons ⟨rfl, Or.inr ⟨Or.inl rfl, ?_⟩⟩ List.Forall₂.nil
  exact ⟨_, _, rfl, rfl, rfl⟩

/-- With no secret kind on the object, the value passes the redaction. -/
theorem redact_object_one_secret (types : Option TypeMeta) (value : String)
    (hk : is_secret_kind (kind_of types) = false) :
    redact_object (one_secret types value) = one_secret types value := by
  have hdata : is_sensitive_key "data" = false := by decide +kernel
  have huser : is_sensitive_key "username" = false := by decide +kernel
  simp [redact_object, one_secret, hk, redact_value, redact_members, hdata, huser,
    names_sensitive, Map.get]

/-! ## The mapping -/

section
variable [FloatText]

/-- The one mapping of an object to a row. A lens reads the redacted object,
and an object that has no JSON reads as `null`. -/
def map_object_with (lens : Option ViewDefinition) (obj : DynamicObject)
    (gvk : GroupVersionKind) : Row :=
  match lens with
  | some vd => render_row vd ⟨(redact_object obj).to_value.getD .null⟩
  | none => resource_row (summary_of obj gvk)

/-- The row of a decoded object with a uid has that uid as its id, with a
lens and with none. -/
theorem map_object_with_id (lens : Option ViewDefinition) (o : DynamicObject)
    (gvk : GroupVersionKind) (u : String) (hd : o.Decoded) (hu : o.metadata.uid = some u) :
    (map_object_with lens o gvk).id = u := by
  cases lens with
  | none => simp [map_object_with, resource_row, summary_of, hu]
  | some vd =>
    obtain ⟨v, hv, huid⟩ := to_value_uid (redact_object o) u (redact_object_decoded o hd)
      (by rw [redact_object_uid, hu])
    simp [map_object_with, render_row, row_id, hv, huid, Value.as_str]

/-- The lens shows the value of a Secret that carries no secret kind. -/
theorem map_object_with_one_secret (types : Option TypeMeta) (value : String)
    (gvk : GroupVersionKind) (hk : is_secret_kind (kind_of types) = false)
    (hv : value ≠ REDACTED_MARKER) :
    (map_object_with (some username_lens) (one_secret types value) gvk).cells =
      [.Text value] := by
  have hsplit : rust_str.split '.' "data.username" = ["data", "username"] := by decide
  have hd : split_subscripts "data" = ("data", []) := by decide
  have hu : split_subscripts "username" = ("username", []) := by decide
  have hto : ∃ m, (one_secret types value).to_value =
      some (.object (Map.insert "data" (.object [("username", .string value)]) m)) := ⟨_, rfl⟩
  obtain ⟨m, hm⟩ := hto
  have hfield : resolve_field (.object (Map.insert "data"
      (.object [("username", .string value)]) m)) "data.username" = some (.string value) := by
    simp [resolve_field, hsplit, resolve_segment, hd, hu, Value.get, Map.get_cons]
  simp [map_object_with, redact_object_one_secret types value hk, hm, render_row, username_lens,
    cell_for_column, hfield, cell_for_value, hv]

/-- Two objects that differ in their secrets only give the same row, for
every lens and for every kind of Secret, exactly when the type fields of the
object itself name a kind of Secret. -/
theorem lens_rows_hide_secrets_iff_the_object_carries_a_secret_kind (types : Option TypeMeta) :
    (∀ (lens : ViewDefinition) (gvk : GroupVersionKind) (o₁ o₂ : DynamicObject),
      is_secret_kind gvk.kind = true → o₁.types = types → EqualButSecrets o₁ o₂ →
      map_object_with (some lens) o₁ gvk = map_object_with (some lens) o₂ gvk) ↔
    is_secret_kind (kind_of types) = true := by
  constructor
  · intro h
    by_contra hk
    simp only [Bool.not_eq_true] at hk
    have hrow := h username_lens ⟨"", "v1", "Secret"⟩ (one_secret types "a") (one_secret types "b")
      (by decide) rfl (one_secret_equal_but_secrets types "a" "b")
    have ha := map_object_with_one_secret types "a" ⟨"", "v1", "Secret"⟩ hk (by decide)
    have hb := map_object_with_one_secret types "b" ⟨"", "v1", "Secret"⟩ hk (by decide)
    rw [hrow, hb] at ha
    simp at ha
  · intro hk lens gvk o₁ o₂ _ ht heq
    subst ht
    simp only [map_object_with, redact_object_hides_secrets o₁ o₂ heq hk]

end

/-- A printer for objects that hold no doubles. -/
@[reducible] def no_doubles : FloatText := ⟨fun _ => ""⟩

/-- A Secret of a list, with no type fields of its own: two of them that
differ in `data.username` only show two different rows. -/
theorem a_listed_secret_shows_its_value :
    is_secret_kind "Secret" = true ∧
    EqualButSecrets (one_secret none "admin") (one_secret none "root") ∧
    @map_object_with no_doubles (some username_lens) (one_secret none "admin")
        ⟨"", "v1", "Secret"⟩ ≠
      @map_object_with no_doubles (some username_lens) (one_secret none "root")
        ⟨"", "v1", "Secret"⟩ := by
  refine ⟨by decide, one_secret_equal_but_secrets none "admin" "root", ?_⟩
  intro hrow
  have ha := @map_object_with_one_secret no_doubles none "admin" ⟨"", "v1", "Secret"⟩
    (by decide) (by decide)
  have hb := @map_object_with_one_secret no_doubles none "root" ⟨"", "v1", "Secret"⟩
    (by decide) (by decide)
  rw [hrow, hb] at ha
  simp at ha

end kaptein_integration
