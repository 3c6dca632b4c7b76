-- The Kubernetes objects as the `kube` crate hands them to Kaptein: the
-- type fields may be missing, the metadata is typed, and every other key
-- stands in `data`. `to_value` writes the three parts into one map again.
import Kaptein.Lib.Value

open serde_json

namespace kube

structure GroupVersionKind where
  group : String
  version : String
  kind : String
  deriving DecidableEq

structure TypeMeta where
  api_version : String
  kind : String
  deriving DecidableEq

/-- A creation time, by what the code reads of it. -/
structure Time where
  as_millisecond : Int
  text : String
  deriving DecidableEq

/-- The metadata of an object. `others` holds the JSON of the fields that
no function here reads by name (labels, owner references, ...). -/
structure ObjectMeta where
  name : Option String := none
  generate_name : Option String := none
  namespace_ : Option String := none
  uid : Option String := none
  creation_timestamp : Option Time := none
  annotations : Option (List (String × String)) := none
  others : Map := []

structure DynamicObject where
  types : Option TypeMeta
  metadata : ObjectMeta
  data : Value

/-- `ResourceExt::name_any`. -/
def DynamicObject.name_any (o : DynamicObject) : String :=
  (o.metadata.name.or o.metadata.generate_name).getD ""

inductive WatchEvent where
  | Added (obj : DynamicObject)
  | Modified (obj : DynamicObject)
  | Deleted (obj : DynamicObject)
  | Bookmark
  | Error

def WatchEvent.object : WatchEvent → Option DynamicObject
  | .Added obj | .Modified obj | .Deleted obj => some obj
  | .Bookmark | .Error => none

/-! ## An object as JSON -/

def string_member (k : String) : Option String → Map
  | some s => [(k, .string s)]
  | none => []

/-- The fields of the metadata that are set, each under its JSON name. -/
def ObjectMeta.members (m : ObjectMeta) : Map :=
  (match m.annotations with
    | some as => [("annotations", .object (as.map fun p => (p.1, .string p.2)))]
    | none => []) ++
  string_member "creationTimestamp" (m.creation_timestamp.map Time.text) ++
  string_member "generateName" m.generate_name ++
  string_member "name" m.name ++
  string_member "namespace" m.namespace_ ++
  string_member "uid" m.uid

def ObjectMeta.to_value (m : ObjectMeta) : Value :=
  .object (Map.insert_all (Map.insert_all [] m.others) m.members)

def type_members : Option TypeMeta → Map
  | some t => [("apiVersion", .string t.api_version), ("kind", .string t.kind)]
  | none => []

/-- `serde_json::to_value` of an object. `types` and `data` are flattened
into the map of the object; only a map or nothing can be flattened. -/
def DynamicObject.to_value (o : DynamicObject) : Option Value :=
  let own := Map.insert_all [] (type_members o.types ++ [("metadata", o.metadata.to_value)])
  match o.data with
  | .object m => some (.object (Map.insert_all own m))
  | .null => some (.object own)
  | _ => none

/-- What the decoder of `kube` promises of an object it read: `data` is
the map of the keys that neither the type fields nor the metadata took. -/
def DynamicObject.Decoded (o : DynamicObject) : Prop :=
  ∃ m, o.data = .object m ∧ "metadata" ∉ Map.keys m

/-! ## Reads of an object as JSON -/

theorem members_uid (m : ObjectMeta) (acc : Map) (u : String) (h : m.uid = some u) :
    Map.get (Map.insert_all acc m.members) "uid" = some (.string u) := by
  unfold ObjectMeta.members
  rw [Map.insert_all_append, h]
  exact Map.get_insert_self _ _ _

/-- The `metadata.uid` of the JSON of a decoded object is its uid. -/
theorem to_value_uid (o : DynamicObject) (u : String) (hd : o.Decoded)
    (hu : o.metadata.uid = some u) :
    ∃ v, o.to_value = some v ∧
      (v.get "metadata").bind (fun m => m.get "uid") = some (.string u) := by
  obtain ⟨m, hm, hno⟩ := hd
  refine ⟨_, by simp [DynamicObject.to_value, hm]; rfl, ?_⟩
  have hget : Map.get (Map.insert_all (Map.insert_all []
      (type_members o.types ++ [("metadata", o.metadata.to_value)])) m) "metadata" =
      some o.metadata.to_value := by
    rw [Map.get_insert_all_ne _ _ _ hno, Map.insert_all_append]
    exact Map.get_insert_self _ _ _
  change (Map.get _ "metadata").bind _ = _
  rw [hget]
  exact members_uid _ _ _ hu

end kube
