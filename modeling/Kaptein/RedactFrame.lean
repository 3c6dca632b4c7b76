-- What the redaction of an object leaves as it was. A second redaction changes
-- nothing more, and a place that is not masked keeps its value.
import Kaptein.Lib.JsonPath
import Kaptein.Noninterference

open serde_json kube rust_str

namespace kaptein_core.redact

/-! ## The masked places -/

/-- The member `k` of the value is masked, for its key or as the `value` of a pair. -/
def MaskedMember (v : Value) (k : String) : Prop :=
  ∃ m, v = .object m ∧ MaskedKey (names_sensitive m) k

/-- The place is masked or inside a mask. -/
def Hidden (secret : Bool) (data : Value) (p : List Step) : Prop :=
  ∃ q k r, p = q ++ .field k :: r ∧
    ((∃ v, data.follow q = some v ∧ MaskedMember v k) ∨
      secret = true ∧ (q = [.field "data"] ∨ q = [.field "stringData"]))

/-! ## A second redaction -/

theorem get_redact_members (pair : Bool) (m : Map) (k : String) :
    Map.get (redact_members pair m) k = (Map.get m k).map fun v =>
      if is_sensitive_key k || (pair && k == "value") then .string REDACTED
      else redact_value v := by
  induction m with
  | nil => rfl
  | cons p m ih =>
    obtain ⟨k', v⟩ := p
    rw [redact_members, Map.get_cons, Map.get_cons]
    by_cases hk : k' = k
    · subst hk
      simp
    · rw [if_neg hk, if_neg hk]
      exact ih

theorem as_str_redact_value (v : Value) : (redact_value v).as_str = v.as_str := by
  cases v <;> rfl

/-- The redaction does not mask the name of a pair. -/
theorem names_sensitive_redacted (pair : Bool) (m : Map) :
    names_sensitive (redact_members pair m) = names_sensitive m := by
  have hname : ∀ pair : Bool, (is_sensitive_key "name" || (pair && "name" == "value")) = false := by
    decide +kernel
  unfold names_sensitive
  rw [get_redact_members, hname]
  cases Map.get m "name" with
  | none => rfl
  | some v => simp [as_str_redact_value]

mutual
theorem redact_value_idem : ∀ v : Value, redact_value (redact_value v) = redact_value v
  | .null => rfl
  | .bool _ => rfl
  | .number _ => rfl
  | .string _ => rfl
  | .array items => by
    simp only [redact_value]
    rw [redact_items_idem items]
  | .object m => by
    simp only [redact_value]
    rw [names_sensitive_redacted, redact_members_idem _ m]
theorem redact_items_idem : ∀ items : List Value,
    redact_items (redact_items items) = redact_items items
  | [] => rfl
  | v :: items => by
    simp only [redact_items]
    rw [redact_value_idem v, redact_items_idem items]
theorem redact_members_idem (pair : Bool) : ∀ m : List (String × Value),
    redact_members pair (redact_members pair m) = redact_members pair m
  | [] => rfl
  | (k, v) :: m => by
    simp only [redact_members]
    rw [redact_members_idem pair m]
    split
    · rfl
    · rw [redact_value_idem v]
end

/-- The masks of a secret find nothing new after the redaction. -/
theorem mask_values_redacted (v : Value) :
    mask_values (redact_value (mask_values v)) = redact_value (mask_values v) := by
  cases v with
  | object m =>
    simp only [mask_values, redact_value, Value.object.injEq]
    generalize names_sensitive _ = pair
    induction m with
    | nil => rfl
    | cons p m ih =>
      simp only [List.map_cons, redact_members]
      rw [ih]
      simp [redact_value]
  | null => rfl
  | bool b => rfl
  | number n => rfl
  | string s => rfl
  | array items => rfl

theorem map_mask_member_redacted (pair : Bool) (m : Map) :
    (redact_members pair (m.map mask_member)).map mask_member =
      redact_members pair (m.map mask_member) := by
  induction m with
  | nil => rfl
  | cons p m ih =>
    obtain ⟨k, v⟩ := p
    simp only [List.map_cons, redact_members, mask_member, List.cons.injEq, Prod.mk.injEq, true_and]
    refine ⟨?_, ih⟩
    by_cases hk : k = "data" ∨ k = "stringData"
    · rw [if_pos hk, if_pos hk]
      split
      · rfl
      · exact mask_values_redacted v
    · rw [if_neg hk]

theorem mask_data_redacted (v : Value) :
    mask_data (redact_value (mask_data v)) = redact_value (mask_data v) := by
  cases v with
  | object m => rw [mask_data_object, redact_value, mask_data_object, map_mask_member_redacted]
  | null => rfl
  | bool b => rfl
  | number n => rfl
  | string s => rfl
  | array items => rfl

theorem mask_annotations_idem (as : List (String × String)) :
    mask_annotations (mask_annotations as) = mask_annotations as := by
  unfold mask_annotations
  rw [List.map_map]
  apply List.map_congr_left
  intro p _
  simp only [Function.comp_apply]
  split <;> rfl

/-- An object by its three parts. -/
theorem object_ext {o₁ o₂ : DynamicObject} (ht : o₁.types = o₂.types)
    (hm : o₁.metadata = o₂.metadata) (hd : o₁.data = o₂.data) : o₁ = o₂ := by
  cases o₁
  cases o₂
  simp only at ht hm hd
  subst ht hm hd
  rfl

theorem redact_object_idem (o : DynamicObject) :
    redact_object (redact_object o) = redact_object o := by
  apply object_ext
  · exact redact_object_types _
  · rw [redact_object_metadata, redact_object_types, redact_object_metadata]
    split
    · simp only [Option.map_map]
      congr 2
      funext as
      exact mask_annotations_idem as
    · rfl
  · rw [redact_object_data, redact_object_types, redact_object_data]
    split
    · rw [mask_data_redacted, redact_value_idem]
    · exact redact_value_idem _

/-! ## What stays -/

theorem get_redact_value (v : Value) (k : String) (h : ¬MaskedMember v k) :
    (redact_value v).get k = (v.get k).map redact_value := by
  cases v with
  | object m =>
    have hno : (is_sensitive_key k || (names_sensitive m && k == "value")) = false := by
      rw [← Bool.not_eq_true]
      intro hmask
      apply h
      refine ⟨m, rfl, ?_⟩
      simpa [MaskedKey] using hmask
    rw [redact_value, Value.get, get_redact_members, hno]
    rfl
  | null => rfl
  | bool b => rfl
  | number n => rfl
  | string s => rfl
  | array items => rfl

theorem redact_items_eq_map (items : List Value) : redact_items items = items.map redact_value := by
  induction items with
  | nil => rfl
  | cons v items ih => rw [redact_items, ih, List.map_cons]

theorem get_index_redact_value (v : Value) (i : Nat) :
    (redact_value v).get_index i = (v.get_index i).map redact_value := by
  cases v with
  | array items =>
    rw [redact_value, redact_items_eq_map]
    exact List.getElem?_map
  | object m => rfl
  | null => rfl
  | bool b => rfl
  | number n => rfl
  | string s => rfl

theorem sameNode_redact_value (v : Value) : SameNode (some v) (some (redact_value v)) := by
  cases v with
  | object m => exact .object (keys_redact_members _ m)
  | array items =>
    refine .array ?_
    rw [redact_items_eq_map, List.length_map]
  | null => exact .equal _
  | bool b => exact .equal _
  | number n => exact .equal _
  | string s => exact .equal _

/-- Outside of the masks the redaction goes along every path. -/
theorem follow_redact_value (v : Value) (p : List Step) (h : ¬Hidden false v p) :
    (redact_value v).follow p = (v.follow p).map redact_value := by
  induction p generalizing v with
  | nil => rfl
  | cons s p ih =>
    have hstep : (redact_value v).step s = (v.step s).map redact_value := by
      cases s with
      | field k =>
        apply get_redact_value
        intro hk
        exact h ⟨[], k, p, rfl, .inl ⟨v, rfl, hk⟩⟩
      | index i => exact get_index_redact_value v i
    rw [Value.follow_cons, Value.follow_cons, hstep]
    cases hw : v.step s with
    | none => rfl
    | some w =>
      apply ih w
      rintro ⟨q, k, r, rfl, ⟨u, hu, hk⟩ | ⟨hf, _⟩⟩
      · refine h ⟨s :: q, k, r, rfl, .inl ⟨u, ?_, hk⟩⟩
        rw [Value.follow_cons, hw]
        exact hu
      · cases hf

/-! ### The masks of a secret -/

theorem get_mask_data (v : Value) (k : String) :
    (mask_data v).get k = (v.get k).map fun w =>
      if k = "data" ∨ k = "stringData" then mask_values w else w := by
  cases v with
  | object m =>
    rw [mask_data_object]
    simp only [Value.get]
    induction m with
    | nil => rfl
    | cons p m ih =>
      obtain ⟨k', w⟩ := p
      rw [List.map_cons, mask_member, Map.get_cons, Map.get_cons]
      by_cases hk : k' = k
      · subst hk
        simp
      · rw [if_neg hk, if_neg hk]
        exact ih
  | null => rfl
  | bool b => rfl
  | number n => rfl
  | string s => rfl
  | array items => rfl

theorem get_index_mask_data (v : Value) (i : Nat) : (mask_data v).get_index i = v.get_index i := by
  cases v <;> rfl

theorem keys_mask_values (m : Map) :
    Map.keys (m.map fun p => (p.1, Value.string REDACTED)) = Map.keys m := by
  simp [Map.keys]

theorem get_index_mask_values (v : Value) (i : Nat) :
    (mask_values v).get_index i = v.get_index i := by
  cases v <;> rfl

theorem sameNode_mask_values (v : Value) : SameNode (some v) (some (mask_values v)) := by
  cases v with
  | object m => exact .object (keys_mask_values m)
  | null => exact .equal _
  | bool b => exact .equal _
  | number n => exact .equal _
  | string s => exact .equal _
  | array items => exact .equal _

theorem sameNode_mask_data (v : Value) : SameNode (some v) (some (mask_data v)) := by
  cases v with
  | object m =>
    rw [mask_data_object]
    refine .object ?_
    simp [Map.keys, mask_member]
  | null => exact .equal _
  | bool b => exact .equal _
  | number n => exact .equal _
  | string s => exact .equal _
  | array items => exact .equal _

/-- The masks of a secret touch the maps `data` and `stringData` only. -/
theorem follow_mask_data (v : Value) (p : List Step)
    (h : ∀ k r, p ≠ .field "data" :: .field k :: r ∧ p ≠ .field "stringData" :: .field k :: r) :
    (mask_data v).follow p = v.follow p ∨
      p = [] ∨ p = [.field "data"] ∨ p = [.field "stringData"] := by
  cases p with
  | nil => exact .inr (.inl rfl)
  | cons s p =>
    rw [Value.follow_cons, Value.follow_cons]
    cases s with
    | index i =>
      left
      simp only [Value.step, get_index_mask_data]
    | field k =>
      simp only [Value.step, get_mask_data]
      by_cases hk : k = "data" ∨ k = "stringData"
      · simp only [if_pos hk]
        cases p with
        | nil =>
          right
          right
          rcases hk with rfl | rfl
          · exact .inl rfl
          · exact .inr rfl
        | cons t p =>
          cases t with
          | index i =>
            left
            cases v.get k with
            | none => rfl
            | some w =>
              simp only [Option.map_some, Option.bind_some, Value.follow_cons, Value.step]
              rw [get_index_mask_values]
          | field k' =>
            exfalso
            rcases hk with rfl | rfl
            · exact (h k' p).1 rfl
            · exact (h k' p).2 rfl
      · left
        simp only [if_neg hk]
        cases v.get k with
        | none => rfl
        | some w => rfl

/-- A place that a secret shows does not go into one of its maps. -/
theorem shown_of_secret {v : Value} {p : List Step} (h : ¬Hidden true v p) (k : String)
    (r : List Step) :
    p ≠ .field "data" :: .field k :: r ∧ p ≠ .field "stringData" :: .field k :: r := by
  constructor
  · rintro rfl
    exact h ⟨[.field "data"], k, r, rfl, .inr ⟨rfl, .inl rfl⟩⟩
  · rintro rfl
    exact h ⟨[.field "stringData"], k, r, rfl, .inr ⟨rfl, .inr rfl⟩⟩

theorem sameNode_follow_mask_data (v : Value) (p : List Step) (h : ¬Hidden true v p) :
    SameNode (v.follow p) ((mask_data v).follow p) := by
  have hfield : ∀ k, (k = "data" ∨ k = "stringData") →
      SameNode (v.follow [.field k]) ((mask_data v).follow [.field k]) := by
    intro k hk
    simp only [Value.follow_cons, Value.step, get_mask_data, if_pos hk]
    cases v.get k with
    | none => exact .absent
    | some w => exact sameNode_mask_values w
  rcases follow_mask_data v p (shown_of_secret h) with heq | rfl | rfl | rfl
  · rw [heq]
    exact .refl _
  · exact sameNode_mask_data v
  · exact hfield "data" (.inl rfl)
  · exact hfield "stringData" (.inr rfl)

/-- What a secret shows, the redaction of its data shows as well. -/
theorem shown_after_mask_data {v : Value} {p : List Step} (h : ¬Hidden true v p) :
    ¬Hidden false (mask_data v) p := by
  rintro ⟨q, k, r, hp, ⟨w, hw, m, rfl, hk⟩ | ⟨hf, _⟩⟩
  · have hshown := shown_of_secret h
    have hq : ∀ k' r', q ≠ .field "data" :: .field k' :: r' ∧
        q ≠ .field "stringData" :: .field k' :: r' := by
      intro k' r'
      constructor
      · rintro rfl
        exact (hshown k' (r' ++ .field k :: r)).1 hp
      · rintro rfl
        exact (hshown k' (r' ++ .field k :: r)).2 hp
    rcases follow_mask_data v q hq with heq | rfl | rfl | rfl
    · rw [heq] at hw
      exact h ⟨q, k, r, hp, .inl ⟨_, hw, m, rfl, hk⟩⟩
    · rw [Value.follow_nil, Option.some.injEq] at hw
      cases v with
      | object n =>
        rw [mask_data_object, Value.object.injEq] at hw
        subst hw
        rw [names_sensitive_masked] at hk
        exact h ⟨[], k, r, hp, .inl ⟨_, rfl, n, rfl, hk⟩⟩
      | null => cases hw
      | bool b => cases hw
      | number n => cases hw
      | string s => cases hw
      | array items => cases hw
    · exact (hshown k r).1 hp
    · exact (hshown k r).2 hp
  · cases hf

/-! ## The frame of a redaction -/

/-- The second object is the first one with masks, and with nothing else changed. -/
structure Framed (o r : DynamicObject) : Prop where
  types : r.types = o.types
  /-- The annotations are the only metadata that may differ. -/
  metadata : ∃ annotations, r.metadata = { o.metadata with annotations := annotations }
  /-- The same annotations, each with its value, except the sensitive ones of a secret kind. -/
  annotations : Option.Rel (List.Forall₂ fun a b => a.1 = b.1 ∧
    (a.2 = b.2 ∨ is_secret_kind (kind_of o.types) = true ∧ is_sensitive_annotation a.1 = true))
    o.metadata.annotations r.metadata.annotations
  /-- The same node at every place that is not masked. -/
  data : ∀ p, ¬Hidden (is_secret_kind (kind_of o.types)) o.data p →
    SameNode (o.data.follow p) (r.data.follow p)

theorem framed_annotations (secret : Bool) (as : List (String × String)) :
    List.Forall₂ (fun a b => a.1 = b.1 ∧
      (a.2 = b.2 ∨ secret = true ∧ is_sensitive_annotation a.1 = true))
      as (if secret then mask_annotations as else as) := by
  cases secret with
  | false => exact List.forall₂_same.mpr fun a _ => ⟨rfl, .inl rfl⟩
  | true =>
    simp only [if_true, mask_annotations, List.forall₂_map_right_iff]
    rw [List.forall₂_same]
    intro a _
    refine ⟨rfl, ?_⟩
    cases hs : is_sensitive_annotation a.1 with
    | true => exact .inr ⟨trivial, rfl⟩
    | false => exact .inl rfl

theorem framed_data (secret : Bool) (v : Value) (p : List Step) (h : ¬Hidden secret v p) :
    SameNode (v.follow p) ((redact_value (if secret then mask_data v else v)).follow p) := by
  have hvalue : ∀ w : Value, ¬Hidden false w p →
      SameNode (w.follow p) ((redact_value w).follow p) := by
    intro w hw
    rw [follow_redact_value w p hw]
    cases w.follow p with
    | none => exact .absent
    | some u => exact sameNode_redact_value u
  cases secret with
  | false => exact hvalue v h
  | true => exact (sameNode_follow_mask_data v p h).trans (hvalue _ (shown_after_mask_data h))

theorem redact_object_framed (o : DynamicObject) : Framed o (redact_object o) where
  types := redact_object_types o
  metadata := by
    rw [redact_object_metadata]
    split
    · exact ⟨_, rfl⟩
    · exact ⟨o.metadata.annotations, rfl⟩
  annotations := by
    rw [redact_object_metadata]
    generalize hs : is_secret_kind (kind_of o.types) = secret
    have hannotations : (if secret = true then
        { o.metadata with annotations := o.metadata.annotations.map mask_annotations }
        else o.metadata).annotations =
        o.metadata.annotations.map fun as => if secret then mask_annotations as else as := by
      cases secret <;> simp
    rw [hannotations]
    cases o.metadata.annotations with
    | none => exact .none
    | some as => exact .some (framed_annotations secret as)
  data := by
    intro p hp
    rw [redact_object_data]
    exact framed_data _ _ p hp

/-- A second redaction changes nothing, and the first one changes the masked places only. -/
theorem redact_object_idempotent_and_framed (o : DynamicObject) :
    redact_object (redact_object o) = redact_object o ∧ Framed o (redact_object o) :=
  ⟨redact_object_idem o, redact_object_framed o⟩

end kaptein_core.redact
