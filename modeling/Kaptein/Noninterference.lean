-- What the redaction hides: two objects that differ at sensitive positions only
-- are the same after it, wherever the positions are in the data.
import Kaptein.MapObject

open serde_json kube rust_str

namespace kaptein_core.redact

/-! ## Values that differ at sensitive positions only -/

/-- The value of the member is masked, for its key or as the `value` of a pair
with a sensitive name. -/
def MaskedKey (pair : Bool) (k : String) : Prop :=
  is_sensitive_key k = true ∨ (pair = true ∧ k = "value")

mutual
inductive AlikeValue : Value → Value → Prop
  | same (v : Value) : AlikeValue v v
  | array {xs ys : List Value} : AlikeItems xs ys → AlikeValue (.array xs) (.array ys)
  | object {m n : List (String × Value)} :
    AlikeMembers (names_sensitive m) m n → AlikeValue (.object m) (.object n)
inductive AlikeItems : List Value → List Value → Prop
  | nil : AlikeItems [] []
  | cons {v w : Value} {xs ys : List Value} :
    AlikeValue v w → AlikeItems xs ys → AlikeItems (v :: xs) (w :: ys)
inductive AlikeMembers : Bool → List (String × Value) → List (String × Value) → Prop
  | nil (pair : Bool) : AlikeMembers pair [] []
  | masked {pair : Bool} {k : String} (v w : Value) {m n : List (String × Value)} :
    MaskedKey pair k → AlikeMembers pair m n → AlikeMembers pair ((k, v) :: m) ((k, w) :: n)
  | kept {pair : Bool} (k : String) {v w : Value} {m n : List (String × Value)} :
    AlikeValue v w → AlikeMembers pair m n → AlikeMembers pair ((k, v) :: m) ((k, w) :: n)
end

theorem AlikeMembers.keys : ∀ {pair : Bool} {m n : Map}, AlikeMembers pair m n →
    Map.keys m = Map.keys n
  | _, _, _, .nil _ => rfl
  | _, _, _, .masked _ _ _ h => by simp only [Map.keys_cons, h.keys]
  | _, _, _, .kept _ _ h => by simp only [Map.keys_cons, h.keys]

theorem AlikeValue.as_str {v w : Value} (h : AlikeValue v w) : v.as_str = w.as_str := by
  cases h <;> rfl

/-- The key `name` is not sensitive itself. -/
theorem name_not_masked {pair : Bool} {k : String} (h : MaskedKey pair k) : k ≠ "name" := by
  rintro rfl
  rcases h with h | ⟨_, h⟩
  · have hname : is_sensitive_key "name" = false := by decide +kernel
    rw [hname] at h
    cases h
  · revert h
    decide +kernel

theorem AlikeMembers.names_sensitive_eq : ∀ {pair : Bool} {m n : Map}, AlikeMembers pair m n →
    names_sensitive m = names_sensitive n
  | _, _, _, .nil _ => rfl
  | _, _, _, .masked (k := k) v w hk h => by
    have ih := h.names_sensitive_eq
    unfold names_sensitive at ih ⊢
    rw [Map.get_cons, Map.get_cons, if_neg (name_not_masked hk), if_neg (name_not_masked hk)]
    exact ih
  | _, _, _, .kept k hv h => by
    have ih := h.names_sensitive_eq
    unfold names_sensitive at ih ⊢
    rw [Map.get_cons, Map.get_cons]
    split_ifs
    · rw [Option.bind_some, Option.bind_some, hv.as_str]
    · exact ih

/-! ## The redaction makes them equal -/

mutual
theorem AlikeValue.redact_eq : ∀ {v w : Value}, AlikeValue v w → redact_value v = redact_value w
  | _, _, .same _ => rfl
  | _, _, .array h => by rw [redact_value, redact_value, h.redact_eq]
  | _, _, .object h => by rw [redact_value, redact_value, ← h.names_sensitive_eq, h.redact_eq]
theorem AlikeItems.redact_eq : ∀ {xs ys : List Value}, AlikeItems xs ys →
    redact_items xs = redact_items ys
  | _, _, .nil => rfl
  | _, _, .cons hv h => by rw [redact_items, redact_items, hv.redact_eq, h.redact_eq]
theorem AlikeMembers.redact_eq : ∀ {pair : Bool} {m n : List (String × Value)},
    AlikeMembers pair m n → redact_members pair m = redact_members pair n
  | _, _, _, .nil _ => rfl
  | pair, _, _, .masked (k := k) v w hk h => by
    have hmask : (is_sensitive_key k || (pair && k == "value")) = true := by
      rcases hk with hk | ⟨hp, hk⟩
      · rw [hk, Bool.true_or]
      · simp [hp, hk]
    rw [redact_members, redact_members, if_pos hmask, if_pos hmask, h.redact_eq]
  | _, _, _, .kept k hv h => by
    rw [redact_members, redact_members, hv.redact_eq, h.redact_eq]
end

/-! ## The data of an object -/

/-- The value is inside `data` or `stringData`, and the kind is a secret one. -/
def SecretData (secret : Bool) (k : String) (v w : Value) : Prop :=
  secret = true ∧ (k = "data" ∨ k = "stringData") ∧ SameKeys v w

/-- A member of the data of an object. -/
def AlikeMember (secret pair : Bool) (p q : String × Value) : Prop :=
  p.1 = q.1 ∧ (MaskedKey pair p.1 ∨ AlikeValue p.2 q.2 ∨ SecretData secret p.1 p.2 q.2)

/-- The data differ at sensitive positions only. -/
def AlikeData (secret : Bool) (v w : Value) : Prop :=
  AlikeValue v w ∨ ∃ m n, v = .object m ∧ w = .object n ∧
    List.Forall₂ (AlikeMember secret (names_sensitive m)) m n

theorem AlikeMembers.members (secret : Bool) : ∀ {pair : Bool} {m n : Map},
    AlikeMembers pair m n → List.Forall₂ (AlikeMember secret pair) m n
  | _, _, _, .nil _ => .nil
  | _, _, _, .masked _ _ hk h => .cons ⟨rfl, .inl hk⟩ (h.members secret)
  | _, _, _, .kept _ hv h => .cons ⟨rfl, .inr (.inl hv)⟩ (h.members secret)

theorem alikeMembers_of_members (pair : Bool) (m n : Map)
    (h : List.Forall₂ (AlikeMember false pair) m n) : AlikeMembers pair m n := by
  induction h with
  | nil => exact .nil pair
  | @cons p q m n hpq _ ih =>
    obtain ⟨k, v⟩ := p
    obtain ⟨k', w⟩ := q
    obtain ⟨hk, hv⟩ := hpq
    simp only at hk hv
    subst hk
    rcases hv with hv | hv | hv
    · exact .masked v w hv ih
    · exact .kept k hv ih
    · simp [SecretData] at hv

/-! ## The masks of a secret kind -/

/-- The two masks over the data, in the order of the code. -/
def mask_data (v : Value) : Value := (v.modify "data" mask_values).modify "stringData" mask_values

def mask_member (p : String × Value) : String × Value :=
  (p.1, if p.1 = "data" ∨ p.1 = "stringData" then mask_values p.2 else p.2)

theorem mask_data_object (m : Map) : mask_data (.object m) = .object (m.map mask_member) := by
  simp only [mask_data, Value.modify, Map.modify, List.map_map, Value.object.injEq]
  apply List.map_congr_left
  rintro ⟨k, v⟩ _
  by_cases hd : k = "data"
  · simp [mask_member, hd]
  · by_cases hs : k = "stringData"
    · simp [mask_member, hs]
    · simp [mask_member, hd, hs]

theorem names_sensitive_masked (m : Map) :
    names_sensitive (m.map mask_member) = names_sensitive m := by
  unfold names_sensitive
  induction m with
  | nil => rfl
  | cons p m ih =>
    obtain ⟨k, v⟩ := p
    rw [List.map_cons, mask_member, Map.get_cons, Map.get_cons]
    by_cases hk : k = "name"
    · simp [hk]
    · simp only [hk, if_false]
      exact ih

theorem AlikeValue.mask_values {v w : Value} (h : AlikeValue v w) :
    AlikeValue (mask_values v) (mask_values w) := by
  cases h with
  | same => exact .same _
  | array h => exact .array h
  | object h =>
    rw [mask_values_sameKeys _ _ ⟨_, _, rfl, rfl, h.keys⟩]
    exact .same _

/-- The masks hide the secret data, so the members are alike without it. -/
theorem alikeMembers_masked (secret pair : Bool) (m n : Map)
    (h : List.Forall₂ (AlikeMember secret pair) m n) :
    AlikeMembers pair (m.map mask_member) (n.map mask_member) := by
  induction h with
  | nil => exact .nil pair
  | @cons p q m n hpq _ ih =>
    obtain ⟨k, v⟩ := p
    obtain ⟨k', w⟩ := q
    obtain ⟨hk, hv⟩ := hpq
    simp only at hk hv
    subst hk
    rw [List.map_cons, List.map_cons, mask_member, mask_member]
    rcases hv with hv | hv | ⟨_, hkey, hs⟩
    · exact .masked _ _ hv ih
    · apply AlikeMembers.kept k _ ih
      simp only
      split_ifs
      · exact hv.mask_values
      · exact hv
    · rw [if_pos hkey, if_pos hkey, mask_values_sameKeys v w hs]
      exact .kept k (.same _) ih

theorem AlikeData.mask_data {secret : Bool} {v w : Value} (h : AlikeData secret v w) :
    AlikeValue (mask_data v) (mask_data w) := by
  have hmembers : ∀ m n, List.Forall₂ (AlikeMember secret (names_sensitive m)) m n →
      AlikeValue (redact.mask_data (.object m)) (redact.mask_data (.object n)) := by
    intro m n hmn
    rw [mask_data_object, mask_data_object]
    apply AlikeValue.object
    rw [names_sensitive_masked]
    exact alikeMembers_masked secret _ m n hmn
  rcases h with h | ⟨m, n, rfl, rfl, hmn⟩
  · cases h with
    | same => exact .same _
    | array h => exact .array h
    | object h => exact hmembers _ _ (h.members secret)
  · exact hmembers m n hmn

/-- Without a secret kind the data are alike as they stand. -/
theorem AlikeData.alike {v w : Value} (h : AlikeData false v w) : AlikeValue v w := by
  rcases h with h | ⟨m, n, rfl, rfl, hmn⟩
  · exact h
  · exact .object (alikeMembers_of_members _ m n hmn)

/-! ## Two objects -/

theorem redact_object_data (o : DynamicObject) : (redact_object o).data =
    redact_value (if is_secret_kind (kind_of o.types) then mask_data o.data else o.data) := by
  unfold redact_object mask_data
  split <;> rfl

theorem redact_object_types (o : DynamicObject) : (redact_object o).types = o.types := by
  unfold redact_object
  split <;> rfl

theorem redact_object_metadata (o : DynamicObject) : (redact_object o).metadata =
    if is_secret_kind (kind_of o.types) then
      { o.metadata with annotations := o.metadata.annotations.map mask_annotations }
    else o.metadata := by
  unfold redact_object
  split <;> rfl

/-- Two objects whose data are alike have the same data after the redaction. -/
theorem redact_object_data_eq (o₁ o₂ : DynamicObject) (ht : o₁.types = o₂.types)
    (h : AlikeData (is_secret_kind (kind_of o₁.types)) o₁.data o₂.data) :
    (redact_object o₁).data = (redact_object o₂).data := by
  rw [redact_object_data, redact_object_data, ← ht]
  by_cases hk : is_secret_kind (kind_of o₁.types) = true
  · rw [if_pos hk, if_pos hk]
    exact h.mask_data.redact_eq
  · rw [if_neg hk, if_neg hk]
    rw [Bool.not_eq_true] at hk
    rw [hk] at h
    exact h.alike.redact_eq

/-- Of two objects with alike data only the metadata can tell which is which. -/
theorem redact_object_eq_iff (o₁ o₂ : DynamicObject) (ht : o₁.types = o₂.types)
    (h : AlikeData (is_secret_kind (kind_of o₁.types)) o₁.data o₂.data) :
    redact_object o₁ = redact_object o₂ ↔
      (redact_object o₁).metadata = (redact_object o₂).metadata := by
  have hd := redact_object_data_eq o₁ o₂ ht h
  have htypes : (redact_object o₁).types = (redact_object o₂).types := by
    rw [redact_object_types, redact_object_types, ht]
  rcases hr₁ : redact_object o₁ with ⟨t₁, m₁, d₁⟩
  rcases hr₂ : redact_object o₂ with ⟨t₂, m₂, d₂⟩
  simp only [hr₁, hr₂] at hd htypes
  simp [hd, htypes]

/-- The objects carry the same type fields, with a kind, and the same metadata.
Their data differ at sensitive positions only. -/
structure AlikeObjects (o₁ o₂ : DynamicObject) : Prop where
  types : o₁.types = o₂.types
  present : o₁.types.isSome
  metadata : o₁.metadata = o₂.metadata
  data : AlikeData (is_secret_kind (kind_of o₁.types)) o₁.data o₂.data

/-- The redaction hides every sensitive position, however deep it stands. -/
theorem redact_object_hides_sensitive_positions (o₁ o₂ : DynamicObject) (h : AlikeObjects o₁ o₂) :
    redact_object o₁ = redact_object o₂ := by
  rw [redact_object_eq_iff o₁ o₂ h.types h.data, redact_object_metadata, redact_object_metadata,
    h.types, h.metadata]

/-- The containers of a workload that read a password. -/
def env_member (value : String) : String × Value :=
  ("spec", .object [("env", .array
    [.object [("name", .string "DB_PASSWORD"), ("value", .string value)]])])

theorem env_member_alike (value₁ value₂ : String) :
    AlikeValue (env_member value₁).2 (env_member value₂).2 := by
  have hpair : names_sensitive [("name", .string "DB_PASSWORD"), ("value", .string value₁)] =
      true := by
    simp only [names_sensitive, Map.get_cons, if_true, Option.bind_some, Value.as_str,
      Option.any_some]
    decide +kernel
  refine .object (.kept "env" (.array (.cons (.object ?_) .nil)) (.nil _))
  rw [hpair]
  exact .kept "name" (.same _) (.masked _ _ (.inr ⟨rfl, rfl⟩) (.nil true))

def secret_with (value : String) : DynamicObject where
  types := some ⟨"v1", "Secret"⟩
  metadata := { name := some "db" }
  data := .object [("data", .object [("username", .string value)]), env_member value]

theorem two_secrets_redact_to_one :
    AlikeObjects (secret_with "a") (secret_with "b") ∧
    redact_object (secret_with "a") = redact_object (secret_with "b") := by
  have halike : AlikeObjects (secret_with "a") (secret_with "b") := by
    refine ⟨rfl, rfl, rfl, .inr ⟨_, _, rfl, rfl, .cons ?_ (.cons ?_ .nil)⟩⟩
    · exact ⟨rfl, .inr (.inr ⟨by decide, .inl rfl, _, _, rfl, rfl, rfl⟩)⟩
    · exact ⟨rfl, .inr (.inl (env_member_alike "a" "b"))⟩
  exact ⟨halike, redact_object_hides_sensitive_positions _ _ halike⟩

/-! ## The copy that `kubectl apply` leaves in an annotation -/

def LAST_APPLIED : String := "kubectl.kubernetes.io/last-applied-configuration"

def AlikeAnnotation (p q : String × String) : Prop :=
  p.1 = q.1 ∧ (p.2 = q.2 ∨ is_sensitive_key p.1 = true ∨ p.1 = LAST_APPLIED)

section

variable [FloatText] (as_applied : DynamicObject → Value)

/-- The annotation holds the text of the object as it was applied. -/
def CarriesItsCopy (o : DynamicObject) : Prop :=
  ∃ as, o.metadata.annotations = some as ∧ (LAST_APPLIED, (as_applied o).to_string) ∈ as

/-- The objects differ at sensitive positions only, in the data and in the
metadata, and each of them carries its own copy. -/
structure AlikeApplied (o₁ o₂ : DynamicObject) : Prop where
  types : o₁.types = o₂.types
  present : o₁.types.isSome
  data : AlikeData (is_secret_kind (kind_of o₁.types)) o₁.data o₂.data
  fields : { o₁.metadata with annotations := none, others := [] } =
    { o₂.metadata with annotations := none, others := [] }
  others : AlikeMembers false o₁.metadata.others o₂.metadata.others
  annotations : Option.Rel (List.Forall₂ AlikeAnnotation) o₁.metadata.annotations
    o₂.metadata.annotations
  copy₁ : CarriesItsCopy as_applied o₁
  copy₂ : CarriesItsCopy as_applied o₂

end

theorem annotation_is_masked {k : String} (h : is_sensitive_key k = true ∨ k = LAST_APPLIED) :
    is_sensitive_annotation k = true := by
  rcases h with h | rfl
  · simp [h, is_sensitive_annotation]
  · decide +kernel

theorem mask_annotations_alike (as bs : List (String × String))
    (h : List.Forall₂ AlikeAnnotation as bs) : mask_annotations as = mask_annotations bs := by
  induction h with
  | nil => rfl
  | @cons p q as bs hpq _ ih =>
    obtain ⟨k, v⟩ := p
    obtain ⟨k', w⟩ := q
    obtain ⟨hk, hv⟩ := hpq
    simp only at hk hv
    subst hk
    simp only [mask_annotations, List.map_cons] at ih ⊢
    rw [ih]
    rcases hv with rfl | hv
    · rfl
    · simp only [annotation_is_masked hv, if_true]

theorem mask_annotations_rel {as bs : Option (List (String × String))}
    (h : Option.Rel (List.Forall₂ AlikeAnnotation) as bs) :
    as.map mask_annotations = bs.map mask_annotations := by
  cases h with
  | none => rfl
  | some h => rw [Option.map_some, Option.map_some, mask_annotations_alike _ _ h]

theorem metadata_eq_iff {m n : ObjectMeta}
    (h : { m with annotations := none, others := [] } =
      { n with annotations := none, others := [] }) :
    m = n ↔ m.others = n.others ∧ m.annotations = n.annotations := by
  obtain ⟨⟩ := m
  obtain ⟨⟩ := n
  simp only [ObjectMeta.mk.injEq] at h ⊢
  tauto

/-- The redaction makes them equal exactly when the metadata outside the
annotations is the same and either the kind is a secret one or no annotation differs. -/
theorem redact_object_hides_the_copy_iff [FloatText] (as_applied : DynamicObject → Value)
    (o₁ o₂ : DynamicObject) (h : AlikeApplied as_applied o₁ o₂) :
    redact_object o₁ = redact_object o₂ ↔
      o₁.metadata.others = o₂.metadata.others ∧
      (is_secret_kind (kind_of o₁.types) = true ∨
        o₁.metadata.annotations = o₂.metadata.annotations) := by
  rw [redact_object_eq_iff o₁ o₂ h.types h.data, redact_object_metadata, redact_object_metadata,
    ← h.types]
  by_cases hk : is_secret_kind (kind_of o₁.types) = true
  · rw [if_pos hk, if_pos hk, mask_annotations_rel h.annotations, metadata_eq_iff]
    · simp [hk]
    · exact h.fields
  · rw [if_neg hk, if_neg hk, metadata_eq_iff h.fields]
    simp [hk]

/-- What `kubectl apply` writes down: the object without the annotation. -/
def without_annotations (o : DynamicObject) : Value :=
  ({ o with metadata := { o.metadata with annotations := none } }.to_value).getD .null

/-- A workload with a text in the annotation. -/
def annotated (kind value text : String) : DynamicObject where
  types := some ⟨"v1", kind⟩
  metadata := { name := some "db", annotations := some [(LAST_APPLIED, text)] }
  data := .object [env_member value]

theorem annotated_others (kind value text : String) :
    (annotated kind value text).metadata.others = [] := rfl

theorem annotated_without (kind value text : String) :
    without_annotations (annotated kind value text) = .object
      [("apiVersion", .string "v1"), ("kind", .string kind),
        ("metadata", .object [("name", .string "db")]), env_member value] := by
  have hkind : ¬ "kind" < "apiVersion" := by decide
  have hmeta : ¬ "metadata" < "apiVersion" ∧ ¬ "metadata" < "kind" := by decide
  have hspec : ¬ "spec" < "apiVersion" ∧ ¬ "spec" < "kind" ∧ ¬ "spec" < "metadata" := by decide
  simp [without_annotations, annotated, DynamicObject.to_value, ObjectMeta.to_value,
    ObjectMeta.members, string_member, type_members, env_member, Map.insert_all, Map.insert,
    hkind, hmeta, hspec]

section

variable [FloatText]

theorem annotated_alike (as_applied : DynamicObject → Value) (kind v₁ v₂ t₁ t₂ : String)
    (h₁ : CarriesItsCopy as_applied (annotated kind v₁ t₁))
    (h₂ : CarriesItsCopy as_applied (annotated kind v₂ t₂)) :
    AlikeApplied as_applied (annotated kind v₁ t₁) (annotated kind v₂ t₂) := by
  have hdata : AlikeValue (.object [env_member v₁]) (.object [env_member v₂]) :=
    .object (.kept "spec" (env_member_alike v₁ v₂) (.nil _))
  refine ⟨rfl, rfl, .inl hdata, rfl, .nil false, ?_, h₁, h₂⟩
  exact .some (.cons ⟨rfl, .inr (.inr rfl)⟩ .nil)

/-- The workload with its own copy in the annotation. -/
def applied_with (kind value : String) : DynamicObject :=
  annotated kind value (without_annotations (annotated kind value "")).to_string

theorem applied_with_copy (kind value : String) :
    CarriesItsCopy without_annotations (applied_with kind value) := by
  refine ⟨_, rfl, List.mem_singleton.mpr ?_⟩
  rw [applied_with, annotated_without, annotated_without]

theorem applied_with_alike (kind v₁ v₂ : String) :
    AlikeApplied without_annotations (applied_with kind v₁) (applied_with kind v₂) :=
  annotated_alike _ kind v₁ v₂ _ _ (applied_with_copy kind v₁) (applied_with_copy kind v₂)

/-- Equal copies come from equal values. -/
theorem applied_text_inj (kind v₁ v₂ : String)
    (h : (without_annotations (annotated kind v₁ "")).to_string =
      (without_annotations (annotated kind v₂ "")).to_string) : quoted v₁ = quoted v₂ := by
  rw [annotated_without, annotated_without] at h
  simp only [env_member, Value.to_string, Value.texts_of_members, Value.texts_of_items,
    String.intercalate_cons_cons, String.intercalate_singleton, String.append_assoc,
    String.append_right_inj] at h
  simpa only [← String.append_assoc, String.append_left_inj] using h

end

theorem a_secret_hides_its_copy :
    @AlikeApplied kaptein_integration.no_doubles without_annotations
      (@applied_with kaptein_integration.no_doubles "Secret" "a")
      (@applied_with kaptein_integration.no_doubles "Secret" "b") ∧
    redact_object (@applied_with kaptein_integration.no_doubles "Secret" "a") =
      redact_object (@applied_with kaptein_integration.no_doubles "Secret" "b") := by
  have halike := @applied_with_alike kaptein_integration.no_doubles "Secret" "a" "b"
  refine ⟨halike, ?_⟩
  rw [@redact_object_hides_the_copy_iff kaptein_integration.no_doubles _ _ _ halike]
  unfold applied_with
  rw [annotated_others, annotated_others]
  exact ⟨rfl, .inl (by decide)⟩

theorem deployment_keeps_its_text (value text : String) :
    (redact_object (annotated "Deployment" value text)).metadata.annotations =
      some [(LAST_APPLIED, text)] := by
  have hkind : is_secret_kind "Deployment" = false := by decide +kernel
  have hof : kind_of (annotated "Deployment" value text).types = "Deployment" := rfl
  rw [redact_object_metadata, hof, hkind]
  rfl

/-- The copy of a Deployment still shows the password that the env list hides. -/
theorem a_deployment_shows_its_copy :
    @AlikeApplied kaptein_integration.no_doubles without_annotations
      (@applied_with kaptein_integration.no_doubles "Deployment" "a")
      (@applied_with kaptein_integration.no_doubles "Deployment" "b") ∧
    redact_object (@applied_with kaptein_integration.no_doubles "Deployment" "a") ≠
      redact_object (@applied_with kaptein_integration.no_doubles "Deployment" "b") := by
  refine ⟨@applied_with_alike kaptein_integration.no_doubles "Deployment" "a" "b", ?_⟩
  intro h
  have hm := congrArg (fun o => o.metadata.annotations) h
  unfold applied_with at hm
  simp only [deployment_keeps_its_text, Option.some.injEq, List.cons.injEq, Prod.mk.injEq,
    true_and, and_true] at hm
  have hvalue := @applied_text_inj kaptein_integration.no_doubles "Deployment" "a" "b" hm
  revert hvalue
  decide +kernel

end kaptein_core.redact
