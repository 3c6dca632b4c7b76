-- The render contract on the wire (`render.rs`): the derived serializers of its
-- types, and a frontend that is fed the patches of the plane as JSON texts.
import Kaptein.Lib.Serialize
import Kaptein.Loader
import Kaptein.Subscribe

open patches serde serde_json kaptein_viewmodel.viewdef

namespace kaptein_viewmodel

/-! ## Serialization -/

/-- The numbers fit their types. -/
def Cell.Fits : Cell → Prop
  | .Number value => FitsI64 value
  | .Timestamp millis => FitsI64 millis
  | _ => True

def Row.Fits (r : Row) : Prop := ∀ c ∈ r.cells, c.Fits

def RowPatch.Fits : RowPatch → Prop
  | .Upsert _ row => row.Fits
  | .Remove _ => True

/-- The variant stands in the member `type`, in snake case. -/
def Cell.serialize : Cell → Value
  | .Text value => .object [("type", .string "text"), ("value", .string value)]
  | .Number value => .object [("type", .string "number"), ("value", serialize_i64 value)]
  | .Timestamp millis => .object [("type", .string "timestamp"), ("millis", serialize_i64 millis)]
  | .Redacted => .object [("type", .string "redacted")]
  | .Status level label_key =>
    .object [("type", .string "status"), ("level", serialize_variant STATUS_LEVELS level),
      ("label_key", .string label_key)]

def Row.serialize (r : Row) : Value :=
  .object [("id", .string r.id), ("cells", .array (r.cells.map Cell.serialize))]

/-- The name of the variant is the one member of the object. -/
def RowPatch.serialize : RowPatch → Value
  | .Upsert id row => .object [("Upsert", .object [("id", .string id), ("row", row.serialize)])]
  | .Remove id => .object [("Remove", .object [("id", .string id)])]

def SortSpec.serialize (s : SortSpec) : Value :=
  .object [("column", .string s.column), ("descending", .bool s.descending)]

def Filter.serialize (f : Filter) : Value := .object [("expression", .string f.expression)]

def Query.serialize (q : Query) : Value :=
  .object [("start", serialize_u64 q.start), ("end", serialize_u64 q.end_),
    ("sort", serialize_option SortSpec.serialize q.sort),
    ("filter", serialize_option Filter.serialize q.filter)]

def Page.serialize (p : Page) : Value :=
  .object [("rows", .array (p.rows.map Row.serialize)), ("total", serialize_u64 p.total),
    ("revision", serialize_u64 p.revision)]

/-! ## Deserialization -/

inductive CellType where
  | Text
  | Number
  | Timestamp
  | Redacted
  | Status

def CELL_TYPES : List (String × CellType) :=
  [("text", .Text), ("number", .Number), ("timestamp", .Timestamp), ("redacted", .Redacted),
   ("status", .Status)]

/-- The fields of a variant, of which an object may have others beside them. -/
def Cell.content : CellType → Value → Option Cell
  | .Text => struct ["value"] fun field => do return .Text (← required string (field "value"))
  | .Number => struct ["value"] fun field => do return .Number (← required i64 (field "value"))
  | .Timestamp =>
    struct ["millis"] fun field => do return .Timestamp (← required i64 (field "millis"))
  | .Redacted => struct [] fun _ => some .Redacted
  | .Status => struct ["level", "label_key"] fun field => do
    return .Status (← required (variant STATUS_LEVELS) (field "level"))
      (← required string (field "label_key"))

/-- The tag is a member of the object, or the first item of an array. -/
def Cell.deserialize : Value → Option Cell
  | .object m => do
    let tag ← required string (Map.get m "type")
    let type ← CELL_TYPES.lookup tag
    Cell.content type (.object m)
  | .array (tag :: items) => do
    let tag ← string tag
    let type ← CELL_TYPES.lookup tag
    Cell.content type (.array items)
  | _ => none

def Row.deserialize : Value → Option Row :=
  struct ["id", "cells"] fun field => do
    return { id := ← required string (field "id"),
             cells := ← required (vec Cell.deserialize) (field "cells") }

def RowPatch.deserialize : Value → Option RowPatch
  | .object [("Upsert", v)] =>
    struct ["id", "row"] (fun field => do
      return .Upsert (← required string (field "id")) (← required Row.deserialize (field "row"))) v
  | .object [("Remove", v)] =>
    struct ["id"] (fun field => do return .Remove (← required string (field "id"))) v
  | _ => none

def SortSpec.deserialize : Value → Option SortSpec :=
  struct ["column", "descending"] fun field => do
    return { column := ← required string (field "column"),
             descending := ← required boolean (field "descending") }

def Filter.deserialize : Value → Option Filter :=
  struct ["expression"] fun field => do
    return { expression := ← required string (field "expression") }

def Query.deserialize : Value → Option Query :=
  struct ["start", "end", "sort", "filter"] fun field => do
    return { start := ← required u64 (field "start"), end_ := ← required u64 (field "end"),
             sort := ← with_default none (option SortSpec.deserialize) (field "sort"),
             filter := ← with_default none (option Filter.deserialize) (field "filter") }

def Page.deserialize : Value → Option Page :=
  struct ["rows", "total", "revision"] fun field => do
    return { rows := ← required (vec Row.deserialize) (field "rows"),
             total := ← required u64 (field "total"),
             revision := ← required u64 (field "revision") }

/-! ## What is printed is read -/

theorem variant_status (level : StatusLevel) :
    variant STATUS_LEVELS (serialize_variant STATUS_LEVELS level) = some level := by
  cases level <;> rfl

/-- A tagged object is read by the deserializer of its variant. -/
theorem reads_tagged {m : List (String × Value)} {tag : String} {type : CellType} {d : Nat}
    {c : Cell} (hkeys : (Map.keys m).Nodup) (htag : Map.get m "type" = some (.string tag))
    (htype : CELL_TYPES.lookup tag = some type) (h : Reads d (Cell.content type) (.object m) c) :
    Reads d Cell.deserialize (.object m) c where
  whole := h.whole
  depth := h.depth
  stored := by
    have hget : Map.get (Map.insert_all [] (Value.stored_members m)) "type" =
        some (.string tag) := by
      rw [Map.get_insert_all (by rwa [keys_stored_members]), get_stored_members, htag]
      rfl
    have hstored := h.stored
    rw [Value.stored] at hstored ⊢
    rw [Cell.deserialize, hget]
    show (CELL_TYPES.lookup tag >>= fun type => Cell.content type _) = some c
    rw [htype]
    exact hstored

theorem reads_cell {c : Cell} (h : c.Fits) : Reads 1 Cell.deserialize c.serialize c := by
  have hstring := reads_string 0
  cases c with
  | Text value =>
    refine reads_tagged (by exact (by decide : ["type", "value"].Nodup)) rfl rfl ?_
    rw [Cell.content]
    refine reads_struct (by exact (by decide : ["type", "value"].Nodup)) ?_ ?_
    · simp only [List.forall_mem_cons, List.not_mem_nil, false_implies, implies_true, and_true]
      exact ⟨(hstring _).fits, (hstring _).fits⟩
    · simp [Map.get_cons, required, (hstring _).stored]
  | Number value =>
    have hvalue := reads_i64 0 (show FitsI64 value from h)
    refine reads_tagged (by exact (by decide : ["type", "value"].Nodup)) rfl rfl ?_
    rw [Cell.content]
    refine reads_struct (by exact (by decide : ["type", "value"].Nodup)) ?_ ?_
    · simp only [List.forall_mem_cons, List.not_mem_nil, false_implies, implies_true, and_true]
      exact ⟨(hstring _).fits, hvalue.fits⟩
    · simp [Map.get_cons, required, hvalue.stored]
  | Timestamp millis =>
    have hmillis := reads_i64 0 (show FitsI64 millis from h)
    refine reads_tagged (by exact (by decide : ["type", "millis"].Nodup)) rfl rfl ?_
    rw [Cell.content]
    refine reads_struct (by exact (by decide : ["type", "millis"].Nodup)) ?_ ?_
    · simp only [List.forall_mem_cons, List.not_mem_nil, false_implies, implies_true, and_true]
      exact ⟨(hstring _).fits, hmillis.fits⟩
    · simp [Map.get_cons, required, hmillis.stored]
  | Redacted =>
    refine reads_tagged (by exact (by decide : ["type"].Nodup)) rfl rfl ?_
    rw [Cell.content]
    refine reads_struct (by exact (by decide : ["type"].Nodup)) ?_ ?_
    · simp only [List.forall_mem_cons, List.not_mem_nil, false_implies, implies_true, and_true]
      exact (hstring _).fits
    · rfl
  | Status level label_key =>
    have hlevel := reads_variant 0 (variant_status level)
    refine reads_tagged (by exact (by decide : ["type", "level", "label_key"].Nodup)) rfl rfl ?_
    rw [Cell.content]
    refine reads_struct (by exact (by decide : ["type", "level", "label_key"].Nodup)) ?_ ?_
    · simp only [List.forall_mem_cons, List.not_mem_nil, false_implies, implies_true, and_true]
      exact ⟨(hstring _).fits, hlevel.fits, (hstring _).fits⟩
    · simp [Map.get_cons, required, hlevel.stored, (hstring _).stored]

theorem reads_row {r : Row} (h : r.Fits) : Reads 3 Row.deserialize r.serialize r := by
  have hid := reads_string 2 r.id
  have hcells := reads_vec fun c hc => reads_cell (h c hc)
  refine reads_struct (by exact (by decide : ["id", "cells"].Nodup)) ?_ ?_
  · simp only [List.forall_mem_cons, List.not_mem_nil, false_implies, implies_true, and_true]
    exact ⟨hid.fits, hcells.fits⟩
  · simp [Map.get_cons, required, hid.stored, hcells.stored]

theorem upsert_stored (id : RowId) (row : Row) : (RowPatch.Upsert id row).serialize.stored =
    .object [("Upsert", (Value.object [("id", .string id), ("row", row.serialize)]).stored)] := by
  rw [RowPatch.serialize, Value.stored, Value.stored_members, Value.stored_members]
  rfl

theorem remove_stored (id : RowId) : (RowPatch.Remove id).serialize.stored =
    .object [("Remove", (Value.object [("id", .string id)]).stored)] := by
  rw [RowPatch.serialize, Value.stored, Value.stored_members, Value.stored_members]
  rfl

theorem reads_patch {patch : RowPatch} (h : patch.Fits) :
    Reads 5 RowPatch.deserialize patch.serialize patch := by
  have hstring := reads_string 3
  cases patch with
  | Upsert id row =>
    have hrow := reads_row (show row.Fits from h)
    have hread : Reads 4 (struct ["id", "row"] fun field => do
        return RowPatch.Upsert (← required string (field "id"))
          (← required Row.deserialize (field "row")))
        (.object [("id", .string id), ("row", row.serialize)]) (.Upsert id row) := by
      refine reads_struct (by exact (by decide : ["id", "row"].Nodup)) ?_ ?_
      · simp only [List.forall_mem_cons, List.not_mem_nil, false_implies, implies_true, and_true]
        exact ⟨(hstring _).fits, hrow.fits⟩
      · simp [Map.get_cons, required, hrow.stored, (hstring _).stored]
    refine ⟨?_, ?_, ?_⟩
    · simpa [RowPatch.serialize, Value.Whole, Value.MembersWhole] using hread.whole
    · have hdepth := hread.depth
      rw [RowPatch.serialize, Value.depth, Value.depth_of_members, Value.depth_of_members]
      omega
    · rw [upsert_stored]
      exact hread.stored
  | Remove id =>
    have hread : Reads 4 (struct ["id"] fun field => do
        return RowPatch.Remove (← required string (field "id")))
        (.object [("id", .string id)]) (.Remove id) := by
      refine reads_struct (by exact (by decide : ["id"].Nodup)) ?_ ?_
      · simp only [List.forall_mem_cons, List.not_mem_nil, false_implies, implies_true, and_true]
        exact (hstring _).fits
      · simp [Map.get_cons, required, (hstring _).stored]
    refine ⟨?_, ?_, ?_⟩
    · simp [RowPatch.serialize, Value.Whole, Value.MembersWhole]
    · simp [RowPatch.serialize, Value.depth, Value.depth_of_members]
    · rw [remove_stored]
      exact hread.stored

theorem reads_sort_spec (s : SortSpec) : Reads 1 SortSpec.deserialize s.serialize s := by
  have hcolumn := reads_string 0 s.column
  have hdescending := reads_boolean 0 s.descending
  refine reads_struct (by exact (by decide : ["column", "descending"].Nodup)) ?_ ?_
  · simp only [List.forall_mem_cons, List.not_mem_nil, false_implies, implies_true, and_true]
    exact ⟨hcolumn.fits, hdescending.fits⟩
  · simp [Map.get_cons, required, hcolumn.stored, hdescending.stored]

theorem reads_filter (f : Filter) : Reads 1 Filter.deserialize f.serialize f := by
  have hexpression := reads_string 0 f.expression
  refine reads_struct (by exact (by decide : ["expression"].Nodup)) ?_ ?_
  · simp only [List.forall_mem_cons, List.not_mem_nil, false_implies, implies_true, and_true]
    exact hexpression.fits
  · simp [Map.get_cons, required, hexpression.stored]

theorem reads_query {q : Query} (hstart : q.start < 2 ^ 64) (hend : q.end_ < 2 ^ 64) :
    Reads 2 Query.deserialize q.serialize q := by
  have hstart := reads_u64 1 hstart
  have hend := reads_u64 1 hend
  have hsort := reads_option reads_sort_spec (by simp [SortSpec.serialize]) q.sort
  have hfilter := reads_option reads_filter (by simp [Filter.serialize]) q.filter
  refine reads_struct (by exact (by decide : ["start", "end", "sort", "filter"].Nodup)) ?_ ?_
  · simp only [List.forall_mem_cons, List.not_mem_nil, false_implies, implies_true, and_true]
    exact ⟨hstart.fits, hend.fits, hsort.fits, hfilter.fits⟩
  · simp [Map.get_cons, required, with_default, hstart.stored, hend.stored, hsort.stored,
      hfilter.stored]

theorem reads_page {p : Page} (hrows : ∀ r ∈ p.rows, r.Fits) (htotal : p.total < 2 ^ 64)
    (hrevision : p.revision < 2 ^ 64) : Reads 5 Page.deserialize p.serialize p := by
  have hrows := reads_vec fun r hr => reads_row (hrows r hr)
  have htotal := reads_u64 4 htotal
  have hrevision := reads_u64 4 hrevision
  refine reads_struct (by exact (by decide : ["rows", "total", "revision"].Nodup)) ?_ ?_
  · simp only [List.forall_mem_cons, List.not_mem_nil, false_implies, implies_true, and_true]
    exact ⟨hrows.fits, htotal.fits, hrevision.fits⟩
  · simp [Map.get_cons, required, hrows.stored, htotal.stored, hrevision.stored]

/-- The types of the contract cross the wire: the text that one side prints is read by the
other side as the value it was printed of. -/
theorem the_contract_crosses_the_wire [FloatText] [FloatRead] :
    (∀ q : Query, q.start < 2 ^ 64 → q.end_ < 2 ^ 64 →
      (from_str q.serialize.to_string).bind Query.deserialize = some q) ∧
    (∀ p : Page, (∀ r ∈ p.rows, r.Fits) → p.total < 2 ^ 64 → p.revision < 2 ^ 64 →
      (from_str p.serialize.to_string).bind Page.deserialize = some p) ∧
    ∀ patch : RowPatch, patch.Fits →
      (from_str patch.serialize.to_string).bind RowPatch.deserialize = some patch := by
  refine ⟨?_, ?_, ?_⟩
  · intro q hstart hend
    exact (reads_query hstart hend).text (by decide)
  · intro p hrows htotal hrevision
    exact (reads_page hrows htotal hrevision).text (by decide)
  · intro patch h
    exact (reads_patch h).text (by decide)

/-- A pod with a warning and with an age. -/
def running_pod (millis : Int) : Row where
  id := "pod-123"
  cells := [.Status .Warning "status.running", .Timestamp millis, .Redacted]

example : @Value.to_string no_float_text (RowPatch.Upsert "pod-123" (running_pod 5)).serialize =
    "\x7b\"Upsert\":\x7b\"id\":\"pod-123\",\"row\":\x7b\"id\":\"pod-123\",\"cells\":[" ++
    "\x7b\"type\":\"status\",\"level\":\"warning\",\"label_key\":\"status.running\"\x7d," ++
    "\x7b\"type\":\"timestamp\",\"millis\":5\x7d,\x7b\"type\":\"redacted\"\x7d]\x7d\x7d\x7d" := by
  decide +kernel

theorem running_pod_fits {millis : Int} (h : FitsI64 millis) : (running_pod millis).Fits := by
  simp [Row.Fits, running_pod, Cell.Fits, h]

theorem a_patch_crosses_the_wire :
    (@from_str no_float_read (@Value.to_string no_float_text
      (RowPatch.Upsert "pod-123" (running_pod (-5))).serialize)).bind RowPatch.deserialize =
        some (.Upsert "pod-123" (running_pod (-5))) :=
  (@the_contract_crosses_the_wire no_float_text no_float_read).2.2 _ (running_pod_fits (by decide))

end kaptein_viewmodel

namespace kaptein_viewmodel.mem_plane

/-! ## The stream of patches -/

def Write.Fits : Write → Prop
  | .upsert row => row.Fits
  | .remove _ => True

/-- The map of a frontend that reads each text as a patch. -/
def fold_texts [FloatRead] (m : RowId → Option Row) (texts : List String) : RowId → Option Row :=
  fold_patches m (texts.filterMap fun text => (from_str text).bind RowPatch.deserialize)

theorem patch_of_fits {m : RowId → Option Row} {w : Write} (h : w.Fits) {patch : RowPatch}
    (hpatch : patch_of m w = some patch) : patch.Fits := by
  cases w with
  | upsert row =>
    cases hpatch
    exact h
  | remove id =>
    rw [patch_of] at hpatch
    split at hpatch
    · cases hpatch
      trivial
    · cases hpatch

theorem patches_of_fit (m : RowId → Option Row) (writes : List Write)
    (h : ∀ w ∈ writes, w.Fits) : ∀ patch ∈ patches_of m writes, patch.Fits := by
  induction writes generalizing m with
  | nil => simp [patches_of]
  | cons w writes ih =>
    rw [List.forall_mem_cons] at h
    rw [patches_of]
    split
    · rename_i patch hpatch
      exact List.forall_mem_cons.mpr ⟨patch_of_fits h.1 hpatch, ih _ h.2⟩
    · exact ih _ h.2

theorem patches_of_append (m : RowId → Option Row) (a b : List Write) :
    patches_of m (a ++ b) = patches_of m a ++ patches_of (fold_patches m (patches_of m a)) b := by
  induction a generalizing m with
  | nil => rfl
  | cons w a ih =>
    rw [List.cons_append, patches_of, patches_of]
    split
    · rename_i patch _
      rw [ih, List.cons_append, ← fold_patches_append]
      rfl
    · exact ih m

theorem fold_texts_serialize [FloatText] [FloatRead] (m : RowId → Option Row)
    {patches : List RowPatch} (h : ∀ patch ∈ patches, patch.Fits) :
    fold_texts m (patches.map fun patch => patch.serialize.to_string) = fold_patches m patches := by
  have hread : (patches.map fun patch => patch.serialize.to_string).filterMap
      (fun text => (from_str text).bind RowPatch.deserialize) = patches := by
    induction patches with
    | nil => rfl
    | cons patch patches ih =>
      rw [List.forall_mem_cons] at h
      rw [List.map_cons, List.filterMap_cons, (reads_patch h.1).text (by decide), ih h.2]
  rw [fold_texts, hread]

/-- A frontend holds the rows of some revision and reconnects from an older one, of the last
1024. It reads patches that it has applied already, and ends with the rows of the plane. -/
theorem a_reconnect_over_the_wire_is_harmless [FloatText] [FloatRead] (column_ids : List String)
    (before held after : List Write) (hfits : ∀ w ∈ held ++ after, w.Fits) :
    let old := (MemPlane.new column_ids).run before
    let seen := old.run held
    let now := seen.run after
    now.revision ≤ old.revision + 1024 →
      fold_texts seen.row_map
          ((now.subscribe old.revision).2.map fun patch => patch.serialize.to_string) =
        now.row_map := by
  intro old seen now hle
  obtain ⟨log, hlog, hcap⟩ := follows_run_new column_ids before
  have hnow : now = old.run (held ++ after) := by
    show (old.run held).run after = _
    rw [MemPlane.run, MemPlane.run, MemPlane.run, List.foldl_append]
  obtain ⟨made, hmade, hpatches, -⟩ := hlog.run (held ++ after)
  have hlen : (patches_of old.row_map (held ++ after)).length ≤ 1024 := by
    have hrevision : now.revision = (log ++ made).length := by
      rw [hnow]
      exact hmade.revision
    have hold : old.revision = log.length := hlog.revision
    rw [hrevision, hold, List.length_append] at hle
    rw [← hpatches, List.length_map]
    exact Nat.le_of_add_le_add_left hle
  have hreplay : (now.subscribe old.revision).2 = patches_of old.row_map (held ++ after) := by
    show now.replay old.revision = _
    rw [hnow, hlog.run_replay, hcap, Nat.sub_eq_zero_of_le hlen, List.drop_zero]
  have hseen : seen.row_map = fold_patches old.row_map (patches_of old.row_map held) :=
    hlog.run_row_map held
  have hrows : now.row_map = fold_patches old.row_map (patches_of old.row_map (held ++ after)) := by
    rw [hnow]
    exact hlog.run_row_map (held ++ after)
  rw [hreplay, fold_texts_serialize _ (patches_of_fit _ _ hfits), hseen, hrows, patches_of_append]
  unfold fold_patches
  rw [List.map_append]
  exact applyAll_overlap _ _ _

/-- The pod is removed twice and comes back, and the frontend has seen half of it. -/
theorem a_pod_that_comes_back_is_there :
    let old := (MemPlane.new ["status"]).run [.upsert (running_pod 1)]
    let seen := old.run [.remove "pod-123", .upsert (running_pod 2)]
    let now := seen.run [.remove "pod-123", .upsert (running_pod 3)]
    @fold_texts no_float_read seen.row_map ((now.subscribe old.revision).2.map
      fun patch => @Value.to_string no_float_text patch.serialize) = now.row_map := by
  refine @a_reconnect_over_the_wire_is_harmless no_float_text no_float_read ["status"]
    [.upsert (running_pod 1)] [.remove "pod-123", .upsert (running_pod 2)]
    [.remove "pod-123", .upsert (running_pod 3)] ?_ (by decide)
  have hfits : ∀ millis, FitsI64 millis → (Write.upsert (running_pod millis)).Fits :=
    fun _ => running_pod_fits
  intro w hw
  simp only [List.cons_append, List.nil_append, List.mem_cons, List.not_mem_nil, or_false] at hw
  rcases hw with rfl | rfl | rfl | rfl
  · trivial
  · exact hfits 2 (by decide)
  · trivial
  · exact hfits 3 (by decide)

end kaptein_viewmodel.mem_plane
