-- The redaction of an object (`redact.rs`): the values of a Secret and the
-- values under sensitive names are masked before the object is shown.
import Mathlib.Data.List.Forall2
import Kaptein.Object

open serde_json kube rust_str

namespace kaptein_core.redact

def REDACTED : String := "[REDACTED]"

def SENSITIVE_KEYS : List String :=
  ["password", "passwd", "passphrase", "token", "api_key", "apikey", "access_key", "secret_key",
    "secret", "client_secret", "private_key", "credentials", "credential", "bearer",
    "authorization", "auth_token", "cookie", "session", "jwt", "ssh_key", "tls.key"]

def is_secret_kind (kind : String) : Bool :=
  eq_ignore_ascii_case kind "Secret" || eq_ignore_ascii_case kind "ExternalSecret" ||
    eq_ignore_ascii_case kind "ClusterSecretStore" || eq_ignore_ascii_case kind "SecretStore"

def is_sensitive_key (key : String) : Bool :=
  let lower := to_ascii_lowercase key
  SENSITIVE_KEYS.any fun s =>
    lower == s || ends_with lower ("." ++ s) || ends_with lower ("_" ++ s) ||
      ends_with lower ("-" ++ s) || starts_with lower (s ++ ".") || contains lower ("." ++ s ++ ".")

def is_sensitive_annotation (key : String) : Bool :=
  let lower := to_ascii_lowercase key
  ends_with lower "last-applied-configuration" || ends_with lower "release-values" ||
    contains lower ".values" || is_sensitive_key key

/-- The map is a pair `name`, `value` with a sensitive name. -/
def names_sensitive (m : Map) : Bool :=
  ((Map.get m "name").bind Value.as_str).any is_sensitive_key

mutual
/-- `redact_value`. The Rust code masks the `value` of a pair first and
then walks the map; a mask has nothing to redact, so one walk is the same. -/
def redact_value : Value → Value
  | .object m => .object (redact_members (names_sensitive m) m)
  | .array items => .array (redact_items items)
  | v => v
def redact_items : List Value → List Value
  | [] => []
  | v :: vs => redact_value v :: redact_items vs
def redact_members (pair : Bool) : List (String × Value) → List (String × Value)
  | [] => []
  | (k, v) :: m =>
    (k, if is_sensitive_key k || (pair && k == "value") then .string REDACTED
      else redact_value v) :: redact_members pair m
end

/-- Every value of a map masked. Any other value stays. -/
def mask_values : Value → Value
  | .object m => .object (m.map fun p => (p.1, .string REDACTED))
  | v => v

def mask_annotations (as : List (String × String)) : List (String × String) :=
  as.map fun p => (p.1, if is_sensitive_annotation p.1 then REDACTED else p.2)

/-- The kind that the object itself carries, or nothing. -/
def kind_of (types : Option TypeMeta) : String := (types.map TypeMeta.kind).getD ""

def redact_object (obj : DynamicObject) : DynamicObject :=
  let obj := if is_secret_kind (kind_of obj.types) then
      { obj with
        data := (obj.data.modify "data" mask_values).modify "stringData" mask_values
        metadata := { obj.metadata with
          annotations := obj.metadata.annotations.map mask_annotations } }
    else obj
  { obj with data := redact_value obj.data }

/-! ## What the redaction keeps -/

theorem redact_object_uid (o : DynamicObject) :
    (redact_object o).metadata.uid = o.metadata.uid := by
  unfold redact_object
  split <;> rfl

theorem keys_redact_members (pair : Bool) (m : Map) :
    Map.keys (redact_members pair m) = Map.keys m := by
  induction m with
  | nil => rfl
  | cons p m ih =>
    simp only [Map.keys] at ih ⊢
    simp [redact_members, ih]

/-- The redaction keeps the keys of an object, so a decoded object stays one. -/
theorem redact_object_decoded (o : DynamicObject) (h : o.Decoded) : (redact_object o).Decoded := by
  obtain ⟨m, hm, hno⟩ := h
  unfold redact_object
  split
  · refine ⟨_, by simp [hm, Value.modify, redact_value]; rfl, ?_⟩
    rw [keys_redact_members, Map.keys_modify, Map.keys_modify]
    exact hno
  · refine ⟨_, by simp [hm, redact_value]; rfl, ?_⟩
    rw [keys_redact_members]
    exact hno

/-! ## Two objects that differ in their secrets only -/

/-- Two maps with the same keys in the same order. The values are free. -/
def SameKeys (v w : Value) : Prop :=
  ∃ m n, v = .object m ∧ w = .object n ∧ Map.keys m = Map.keys n

/-- The member is the same in both, or it is a map of secrets with the
same keys. -/
def SameButSecrets (p q : String × Value) : Prop :=
  p.1 = q.1 ∧ (p.2 = q.2 ∨ ((p.1 = "data" ∨ p.1 = "stringData") ∧ SameKeys p.2 q.2))

/-- The objects are equal except for the values under the keys of the maps
`data` and `stringData`. -/
structure EqualButSecrets (o₁ o₂ : DynamicObject) : Prop where
  types : o₁.types = o₂.types
  metadata : o₁.metadata = o₂.metadata
  data : o₁.data = o₂.data ∨
    ∃ m n, o₁.data = .object m ∧ o₂.data = .object n ∧ List.Forall₂ SameButSecrets m n

theorem mask_values_sameKeys (v w : Value) (h : SameKeys v w) : mask_values v = mask_values w := by
  obtain ⟨m, n, rfl, rfl, hk⟩ := h
  have hmask : ∀ l : Map, (l.map fun p => (p.1, Value.string REDACTED)) =
      (Map.keys l).map fun k => (k, Value.string REDACTED) := by
    intro l
    simp [Map.keys]
  simp only [mask_values, hmask, hk]

/-- After the masks of `data` and `stringData`, the members are equal. -/
theorem masked_members (m n : Map) (h : List.Forall₂ SameButSecrets m n) :
    Map.modify "stringData" mask_values (Map.modify "data" mask_values m) =
      Map.modify "stringData" mask_values (Map.modify "data" mask_values n) := by
  induction h with
  | nil => rfl
  | @cons p q m n hpq _ ih =>
    obtain ⟨k, v⟩ := p
    obtain ⟨k', w⟩ := q
    obtain ⟨hk, hv⟩ := hpq
    simp only at hk hv
    subst hk
    simp only [Map.modify, List.map_cons] at ih ⊢
    rw [ih]
    congr 1
    rcases hv with hv | ⟨hk, hs⟩
    · rw [hv]
    · have hmask := mask_values_sameKeys v w hs
      rcases hk with hk | hk
      · subst hk
        simp [hmask]
      · subst hk
        simp [hmask]

/-- When the object carries a secret kind, the redaction hides every value
of its secrets. -/
theorem redact_object_hides_secrets (o₁ o₂ : DynamicObject) (h : EqualButSecrets o₁ o₂)
    (hk : is_secret_kind (kind_of o₁.types) = true) : redact_object o₁ = redact_object o₂ := by
  obtain ⟨t₁, md₁, d₁⟩ := o₁
  obtain ⟨t₂, md₂, d₂⟩ := o₂
  obtain ⟨ht, hm, hd⟩ := h
  simp only at ht hm hd hk
  subst ht hm
  rcases hd with hd | ⟨m, n, rfl, rfl, hmn⟩
  · rw [hd]
  · simp only [redact_object, hk, if_true, Value.modify, masked_members m n hmn]

end kaptein_core.redact
