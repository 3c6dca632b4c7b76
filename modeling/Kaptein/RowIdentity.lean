-- The row that an object stands in. The built-in row, the row of a lens and the
-- deletion each take the uid, and each has its own way out where there is none.
import Kaptein.LivePlane

open serde_json kube kaptein_core.redact kaptein_core.discovery kaptein_viewmodel
  kaptein_viewmodel.lens kaptein_viewmodel.mem_plane

namespace kube

/-! ## The names in the JSON of the metadata -/

/-- The fields that stand in no record field here have other names. -/
def ObjectMeta.OthersApart (m : ObjectMeta) : Prop :=
  ∀ k ∈ ["uid", "name", "namespace"], k ∉ Map.keys m.others

theorem get_string_member (acc : Map) (k : String) (field : Option String) :
    Map.get (Map.insert_all acc (string_member k field)) k =
      (field.map Value.string).or (Map.get acc k) := by
  cases field with
  | none => rfl
  | some s => exact Map.get_insert_self _ _ _

theorem get_string_member_ne (acc : Map) {k k' : String} (field : Option String) (h : k ≠ k') :
    Map.get (Map.insert_all acc (string_member k field)) k' = Map.get acc k' := by
  apply Map.get_insert_all_ne
  cases field with
  | none => simp [string_member, Map.keys]
  | some s => simpa [string_member, Map.keys] using h.symm

/-- The three names that an id is made of. -/
theorem get_metadata (m : ObjectMeta) (h : m.OthersApart) :
    m.to_value.get "uid" = m.uid.map Value.string ∧
      m.to_value.get "name" = m.name.map Value.string ∧
      m.to_value.get "namespace" = m.namespace_.map Value.string := by
  have hothers : ∀ k ∈ ["uid", "name", "namespace"], ∀ entries : Map,
      (∀ k' ∈ Map.keys entries, k' = "annotations") → k ≠ "annotations" →
      Map.get (Map.insert_all (Map.insert_all [] m.others) entries) k = none := by
    intro k hk entries hentries hne
    rw [Map.get_insert_all_ne _ _ _ fun hin => hne (hentries k hin),
      Map.get_insert_all_ne _ _ _ (h k hk)]
    rfl
  simp only [ObjectMeta.to_value, ObjectMeta.members, Value.get, Map.insert_all_append]
  refine ⟨?_, ?_, ?_⟩
  · rw [get_string_member, get_string_member_ne _ _ (by decide),
      get_string_member_ne _ _ (by decide), get_string_member_ne _ _ (by decide),
      get_string_member_ne _ _ (by decide), hothers _ (by simp) _ _ (by decide), Option.or_none]
    cases m.annotations <;> simp [Map.keys]
  · rw [get_string_member_ne _ _ (by decide), get_string_member_ne _ _ (by decide),
      get_string_member, get_string_member_ne _ _ (by decide),
      get_string_member_ne _ _ (by decide), hothers _ (by simp) _ _ (by decide), Option.or_none]
    cases m.annotations <;> simp [Map.keys]
  · rw [get_string_member_ne _ _ (by decide), get_string_member,
      get_string_member_ne _ _ (by decide), get_string_member_ne _ _ (by decide),
      get_string_member_ne _ _ (by decide), hothers _ (by simp) _ _ (by decide), Option.or_none]
    cases m.annotations <;> simp [Map.keys]

theorem to_value_metadata (o : DynamicObject) (hd : o.Decoded) :
    ∃ v, o.to_value = some v ∧ v.get "metadata" = some o.metadata.to_value := by
  obtain ⟨m, hm, hno⟩ := hd
  refine ⟨_, by simp [DynamicObject.to_value, hm]; rfl, ?_⟩
  change Map.get _ "metadata" = _
  rw [Map.get_insert_all_ne _ _ _ hno, Map.insert_all_append]
  exact Map.get_insert_self _ _ _

end kube

namespace kaptein_integration

/-! ## The three ids -/

/-- The id of a built-in row. -/
def built_in_id (m : ObjectMeta) : RowId :=
  m.uid.getD (if m.namespace_.getD "" = "" then (m.name.or m.generate_name).getD ""
    else m.namespace_.getD "" ++ "/" ++ (m.name.or m.generate_name).getD "")

/-- The id of a lens row. It does not know the generated name. -/
def lens_id (m : ObjectMeta) : RowId :=
  m.uid.getD (if m.namespace_.getD "" = "" then m.name.getD ""
    else m.namespace_.getD "" ++ "/" ++ m.name.getD "")

/-- The id that a deletion removes. It does not know the namespace. -/
def deleted_id (m : ObjectMeta) : RowId := m.uid.getD ((m.name.or m.generate_name).getD "")

theorem redact_object_metadata (o : DynamicObject) :
    ∃ annotations, (redact_object o).metadata = { o.metadata with annotations } := by
  unfold redact_object
  split
  · exact ⟨_, rfl⟩
  · exact ⟨o.metadata.annotations, rfl⟩

/-- The lens reads the id from the redacted JSON, and the redaction leaves it there. -/
theorem lens_row_id [FloatText] (vd : ViewDefinition) (o : DynamicObject) (hd : o.Decoded)
    (hm : o.metadata.OthersApart) (gvk : GroupVersionKind) :
    (map_object_with (some vd) o gvk).id = lens_id o.metadata := by
  obtain ⟨annotations, hmeta⟩ := redact_object_metadata o
  obtain ⟨v, hv, hget⟩ := to_value_metadata (redact_object o) (redact_object_decoded o hd)
  rw [hmeta] at hget
  obtain ⟨huid, hname, hns⟩ := get_metadata { o.metadata with annotations } hm
  simp only [map_object_with, render_row, row_id, hv, Option.getD_some, hget, Option.bind_some,
    huid, hname, hns, lens_id]
  cases o.metadata.uid <;> cases o.metadata.name <;> cases o.metadata.namespace_ <;> rfl

/-! ## Where they are one -/

/-- With a uid all ids are the uid. With none, the built-in row and the deletion agree on
objects with no namespace. A lens row and the deletion agree there too, unless the only
name is a generated one, and with a namespace only on one name that no server makes. -/
def SameId (lens : Option ViewDefinition) (m : ObjectMeta) : Prop :=
  m.uid.isSome ∨
    match lens with
    | none => m.namespace_.getD "" = ""
    | some _ =>
      (m.namespace_.getD "" = "" ∧ (m.name.isSome ∨ m.generate_name.getD "" = "")) ∨
        (m.namespace_.getD "" ≠ "" ∧ m.name = none ∧
          m.generate_name = some (m.namespace_.getD "" ++ "/"))

/-- A name with something in front of it is another name. -/
theorem prefixed_ne (ns name : String) : ns ++ "/" ++ name ≠ name := by
  intro h
  have hlen := congrArg String.length h
  simp only [String.length_append] at hlen
  have hslash : "/".length = 1 := by decide
  omega

theorem built_in_id_eq_iff (m : ObjectMeta) :
    built_in_id m = deleted_id m ↔ m.uid.isSome ∨ m.namespace_.getD "" = "" := by
  unfold built_in_id deleted_id
  cases m.uid with
  | some u => simp
  | none =>
    by_cases hns : m.namespace_.getD "" = ""
    · simp [hns]
    · simp only [Option.getD_none, Option.isSome_none, Bool.false_eq_true, false_or, hns, iff_false]
      exact prefixed_ne _ _

theorem lens_id_eq_iff (m : ObjectMeta) :
    lens_id m = deleted_id m ↔ m.uid.isSome ∨
      (m.namespace_.getD "" = "" ∧ (m.name.isSome ∨ m.generate_name.getD "" = "")) ∨
        (m.namespace_.getD "" ≠ "" ∧ m.name = none ∧
          m.generate_name = some (m.namespace_.getD "" ++ "/")) := by
  unfold lens_id deleted_id
  cases m.uid with
  | some u => simp
  | none =>
    by_cases hns : m.namespace_.getD "" = ""
    · cases m.name with
      | none =>
        simp only [hns, Option.getD_none, Option.none_or, if_true]
        simp
      | some n => simp [hns]
    · cases m.name with
      | some n =>
        simp only [Option.getD_none, Option.getD_some, Option.some_or, Option.isSome_none,
          Bool.false_eq_true, hns, false_and, reduceCtorEq, and_false, or_false, iff_false]
        exact prefixed_ne _ _
      | none =>
        simp only [Option.getD_none, Option.none_or, Option.isSome_none,
          Bool.false_eq_true, false_or, hns, false_and, ne_eq, not_false_eq_true, true_and,
          String.append_empty]
        cases hg : m.generate_name with
        | none => simp [hns]
        | some g => simp [eq_comm]

section
variable [FloatText]

theorem map_object_with_deleted_id_iff (lens : Option ViewDefinition) (o : DynamicObject)
    (gvk : GroupVersionKind) (hd : o.Decoded) (hm : o.metadata.OthersApart) :
    (map_object_with lens o gvk).id = deleted_id o.metadata ↔ SameId lens o.metadata := by
  cases lens with
  | none => exact built_in_id_eq_iff o.metadata
  | some vd =>
    rw [lens_row_id vd o hd hm gvk]
    exact lens_id_eq_iff o.metadata

/-- The deletion of an object removes the row that its addition upserts, so both
together leave the rows as they were. -/
structure AddAndDeleteAgree (p : LivePlane) (o : DynamicObject) : Prop where
  same : ∃ r row, p.map_watch_event (.Added o) = some (.Upsert r row) ∧
    p.map_watch_event (.Deleted o) = some (.Remove r)
  restored : ∀ r row, p.map_watch_event (.Added o) = some (.Upsert r row) → p.row_map r = none →
    ((p.apply_event (.Added o)).apply_event (.Deleted o)).row_map = p.row_map

theorem deletion_restores {p : LivePlane} {o : DynamicObject}
    (hid : (p.map_object o).id = deleted_id o.metadata)
    (habsent : p.row_map (p.map_object o).id = none) :
    ((p.apply_event (.Added o)).apply_event (.Deleted o)).row_map = p.row_map := by
  have hadd : (p.apply_event (.Added o)).row_map =
      Function.update p.row_map (p.map_object o).id (some (p.map_object o)) :=
    MemPlane.upsert_row_map p.mem (p.map_object o)
  have hdelete : ((p.apply_event (.Added o)).apply_event (.Deleted o)).row_map =
      Function.update (p.apply_event (.Added o)).row_map (deleted_id o.metadata) none :=
    MemPlane.remove_row_map (p.apply_event (.Added o)).mem (deleted_id o.metadata)
  rw [hdelete, hadd, ← hid, Function.update_idem, ← habsent, Function.update_eq_self]

/-- The addition and the deletion of an object address one row exactly where the id has
one source in both. -/
theorem add_and_delete_agree_iff (p : LivePlane) (o : DynamicObject) (hd : o.Decoded)
    (hm : o.metadata.OthersApart) :
    AddAndDeleteAgree p o ↔ SameId p.lens o.metadata := by
  rw [← map_object_with_deleted_id_iff p.lens o p.gvk hd hm]
  constructor
  · rintro ⟨⟨r, row, hadd, hdelete⟩, -⟩
    have hr : (p.map_object o).id = r := by
      cases hadd
      rfl
    have hr' : deleted_id o.metadata = r := by
      cases hdelete
      rfl
    exact hr.trans hr'.symm
  · intro hid
    change (p.map_object o).id = _ at hid
    refine ⟨⟨_, _, rfl, ?_⟩, ?_⟩
    · rw [hid]
      rfl
    · intro r row hadd habsent
      cases hadd
      exact deletion_restores hid habsent

end

/-- An object with a name, with or without a namespace. -/
def named_object (namespace_ name generate_name : Option String) : DynamicObject :=
  { types := none
    metadata := { name, generate_name, namespace_ }
    data := .object [] }

theorem named_object_decoded (namespace_ name generate_name : Option String) :
    (named_object namespace_ name generate_name).Decoded :=
  ⟨[], rfl, by simp [Map.keys]⟩

theorem named_object_apart (namespace_ name generate_name : Option String) :
    (named_object namespace_ name generate_name).metadata.OthersApart := by
  intro k _
  simp [named_object, Map.keys]

/-- A node has a name alone, and its deletion finds the row. -/
theorem a_node_is_added_and_deleted :
    let p : LivePlane :=
      { mem := MemPlane.new [], gvk := ⟨"", "v1", "Node"⟩, namespace_ := none, lens := none }
    @AddAndDeleteAgree no_doubles p (named_object none (some "node-1") none) := by
  intro p
  apply (@add_and_delete_agree_iff no_doubles p _ (named_object_decoded _ _ _)
    (named_object_apart _ _ _)).mpr
  exact Or.inr rfl

/-- A pod with no uid: it is added under its namespace and name and deleted under its name,
and its row stays. In a lens a generated name is lost as well. -/
theorem a_pod_with_no_uid_leaves_its_row :
    let p : LivePlane :=
      { mem := MemPlane.new [], gvk := ⟨"", "v1", "Pod"⟩, namespace_ := none, lens := none }
    let pod := named_object (some "shop") (some "web-0") none
    let after := @LivePlane.apply_event no_doubles
      (@LivePlane.apply_event no_doubles p (.Added pod)) (.Deleted pod)
    let lensed : LivePlane := { p with lens := some username_lens }
    p.row_map "shop/web-0" = none ∧
      (after.row_map "shop/web-0").isSome ∧
      ¬ @AddAndDeleteAgree no_doubles p pod ∧
      ¬ @AddAndDeleteAgree no_doubles lensed (named_object none none (some "job-")) := by
  intro p pod after lensed
  refine ⟨rfl, rfl, ?_, ?_⟩
  · rintro ⟨⟨r, row, hadd, hdelete⟩, -⟩
    have hr : r = "shop/web-0" := by
      cases hadd
      rfl
    have hr' : r = "web-0" := by
      cases hdelete
      rfl
    rw [hr] at hr'
    exact absurd hr' (by decide)
  · rintro ⟨⟨r, row, hadd, hdelete⟩, -⟩
    have hr : r = "" := by
      cases hadd
      rfl
    have hr' : r = "job-" := by
      cases hdelete
      rfl
    rw [hr] at hr'
    exact absurd hr' (by decide)

end kaptein_integration
