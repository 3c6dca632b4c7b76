-- How a lens document is loaded: `serde` reads the value into a view definition, and
-- `validate_viewdef` lists what is wrong with it (`lens.rs`, `surface.rs`).
import Kaptein.Lib.Serde
import Kaptein.ViewDef

open serde_json serde rust_str kaptein_viewmodel.lens

namespace kaptein_viewmodel.viewdef

/-! ## From a value -/

def RULE_OPS : List (String × RuleOp) :=
  [("eq", .Eq), ("ne", .Ne), ("gt", .Gt), ("gte", .Gte), ("lt", .Lt), ("lte", .Lte),
    ("contains", .Contains)]

def COLUMN_KINDS : List (String × ColumnKind) :=
  [("text", .Text), ("number", .Number), ("timestamp", .Timestamp), ("status", .Status)]

def STATUS_LEVELS : List (String × StatusLevel) :=
  [("ok", .Ok), ("info", .Info), ("warning", .Warning), ("error", .Error), ("pending", .Pending)]

def GroupVersionKind.FIELDS : List String := ["group", "version", "kind"]

def GroupVersionKind.deserialize : Value → Option GroupVersionKind :=
  struct FIELDS fun at_ => do
    let group ← with_default "" string (at_ "group")
    let version ← required string (at_ "version")
    let kind ← required string (at_ "kind")
    return { group, version, kind }

def Column.FIELDS : List String := ["id", "header_key", "kind", "sortable", "field"]

/-- Only `field` has a default. -/
def Column.deserialize : Value → Option Column :=
  struct FIELDS fun at_ => do
    let id ← required string (at_ "id")
    let header_key ← required string (at_ "header_key")
    let kind ← required (variant COLUMN_KINDS) (at_ "kind")
    let sortable ← required boolean (at_ "sortable")
    let field ← with_default none (option string) (at_ "field")
    return { id, header_key, kind, sortable, field }

def status_rule_fields : List String := ["field", "op", "value", "level"]

def deserialize_status_rule : Value → Option StatusRule :=
  struct status_rule_fields fun at_ => do
    let field ← required string (at_ "field")
    let op ← required (variant RULE_OPS) (at_ "op")
    let value ← required some (at_ "value")
    let level ← required (variant STATUS_LEVELS) (at_ "level")
    return { field, op, value, level }

def condition_rule_fields : List String := ["condition_type", "status", "level"]

def deserialize_condition_rule : Value → Option ConditionRule :=
  struct condition_rule_fields fun at_ => do
    let condition_type ← required string (at_ "condition_type")
    let status ← required string (at_ "status")
    let level ← required (variant STATUS_LEVELS) (at_ "level")
    return { condition_type, status, level }

def HealthCheck.FIELDS : List String := ["id", "label_key", "field", "op", "value", "level"]

def HealthCheck.deserialize : Value → Option HealthCheck :=
  struct FIELDS fun at_ => do
    let id ← required string (at_ "id")
    let label_key ← required string (at_ "label_key")
    let field ← required string (at_ "field")
    let op ← required (variant RULE_OPS) (at_ "op")
    let value ← required some (at_ "value")
    let level ← required (variant STATUS_LEVELS) (at_ "level")
    return { id, label_key, field, op, value, level }

def LensAction.FIELDS : List String := ["id", "label_key", "state"]

def LensAction.deserialize : Value → Option LensAction :=
  struct FIELDS fun at_ => do
    let id ← required string (at_ "id")
    let label_key ← required string (at_ "label_key")
    let state ← with_default default_action_state string (at_ "state")
    return { id, label_key, state }

def ViewDefinition.FIELDS : List String :=
  ["id", "api_version", "target", "columns", "status", "conditions", "health", "actions"]

def ViewDefinition.deserialize : Value → Option ViewDefinition :=
  struct FIELDS fun at_ => do
    let id ← required string (at_ "id")
    let api_version ← required u32 (at_ "api_version")
    let target ← required GroupVersionKind.deserialize (at_ "target")
    let columns ← with_default [] (vec Column.deserialize) (at_ "columns")
    let status ← with_default [] (vec deserialize_status_rule) (at_ "status")
    let conditions ← with_default [] (vec deserialize_condition_rule) (at_ "conditions")
    let health ← with_default [] (vec HealthCheck.deserialize) (at_ "health")
    let actions ← with_default [] (vec LensAction.deserialize) (at_ "actions")
    return { id, api_version, target, columns, status, conditions, health, actions }

/-! ## Paths and keys -/

/-- `char::is_alphanumeric`, the Unicode properties `Alphabetic` and `Numeric`. -/
class AlphanumericTable where
  is_alphanumeric : Char → Bool

export AlphanumericTable (is_alphanumeric)

/-- The letters and digits of ASCII. -/
@[reducible] def ascii_alphanumeric : AlphanumericTable := ⟨Char.isAlphanum⟩

section

variable [AlphanumericTable]

def is_identifier (s : List Char) : Bool :=
  !s.isEmpty && s.zipIdx.all fun (c, i) =>
    is_alphanumeric c || c == '_' || (decide (0 < i) && c == '-')

/-- The loop of `is_segment`: each turn takes one `[..]` off the end, so the length of the
segment is enough fuel. -/
def is_segment_loop : Nat → List Char → Bool
  | 0, seg => is_identifier seg
  | fuel + 1, seg =>
    if seg.getLast? = some ']' then
      match rfind '[' seg with
      | none => false
      | some open_ =>
        let inside := (seg.take (seg.length - 1)).drop (open_ + 1)
        if inside.isEmpty || !inside.all Char.isDigit then false
        else is_segment_loop fuel (seg.take open_)
    else is_identifier seg

def is_segment (seg : String) : Bool := is_segment_loop seg.toList.length seg.toList

def valid_field_path (field : String) : Bool :=
  match split '.' field with
  | [] => false
  | first :: parts => is_identifier first.toList && parts.all is_segment

def valid_header_key (key : String) : Bool :=
  ((split '.' key).all fun s => is_identifier s.toList) && key.toList.contains '.'

end

def is_condition_status (status : String) : Bool :=
  match status with
  | "True" | "False" | "Unknown" => true
  | _ => false

/-! ## The problems of a definition -/

def is_number : Value → Bool
  | .number _ => true
  | _ => false

def is_string : Value → Bool
  | .string _ => true
  | _ => false

/-- The derived `Debug` of an operator. -/
def op_debug : RuleOp → String
  | .Eq => "Eq"
  | .Ne => "Ne"
  | .Gt => "Gt"
  | .Gte => "Gte"
  | .Lt => "Lt"
  | .Lte => "Lte"
  | .Contains => "Contains"

/-- The values that an operator cannot compare with, for the rule at a place. -/
def value_problems (place : String) (op : RuleOp) (value : Value) : List String :=
  match op with
  | .Gt | .Gte | .Lt | .Lte =>
    if is_number value then []
    else [place ++ ".value: a numeric operator (" ++ op_debug op ++ ") needs a numeric value"]
  | .Contains =>
    if is_string value then [] else [place ++ ".value: `contains` needs a string value"]
  | .Eq | .Ne => []

/-- A loop over items whose ids go into a `HashSet`. A blank id stays out of it. -/
def seen_loop {α : Type} (id : α → String) (problems : Bool → Nat → α → List String) :
    List String → Nat → List α → List String
  | _, _, [] => []
  | seen, i, x :: xs =>
    problems (decide (id x ∈ seen)) i x ++
      seen_loop id problems (if trim (id x) = "" then seen else id x :: seen) (i + 1) xs

section

-- `{:?}` of a string
variable [AlphanumericTable] (debug : String → String)

def id_problems (id : String) : List String :=
  if trim id = "" then ["id: must not be empty"]
  else if id.toList.contains '.' then []
  else ["id " ++ debug id ++ ": must be reverse-DNS (e.g. \"com.example.cnpg-lens\")"]

def api_version_problems (api_version : Nat) : List String :=
  if api_version = LENS_SCHEMA_VERSION then []
  else ["api_version: this release supports lens schema v" ++ toString LENS_SCHEMA_VERSION ++
    ", but the lens declares v" ++ toString api_version ++
    " — a migration is required (docs/versioning.md)"]

def target_problems (target : GroupVersionKind) : List String :=
  (if trim target.version = "" then ["target.version: must not be empty"] else []) ++
    if trim target.kind = "" then ["target.kind: must not be empty"] else []

def column_field_problems (col : Column) : List String :=
  if col.kind ≠ .Status ∧ (col.field = none ∨ col.field = some "") then
    ["columns." ++ debug col.id ++ ": a non-status column needs a `field` (dotted JSON path) so " ++
      "its value is data-bound, not implicit (ADR-0012)"]
  else
    match col.field with
    | none => []
    | some field =>
      if field ≠ "" ∧ valid_field_path field = false then
        ["columns." ++ debug col.id ++ ".field " ++ debug field ++ ": not a dotted JSON path"]
      else []

def column_problems (seen : Bool) (_ : Nat) (col : Column) : List String :=
  (if trim col.id = "" then ["columns: a column has an empty id"]
    else if seen then ["columns: duplicate column id " ++ debug col.id]
    else []) ++
  (if valid_header_key col.header_key then []
    else ["columns." ++ debug col.id ++
      ": header_key must be a dotted i18n key (e.g. \"col.name\")"]) ++
  column_field_problems debug col

def status_problems (i : Nat) (rule : StatusRule) : List String :=
  (if valid_field_path rule.field then []
    else
      ["status[" ++ toString i ++ "].field " ++ debug rule.field ++ ": not a dotted JSON path"]) ++
  value_problems ("status[" ++ toString i ++ "]") rule.op rule.value

def action_problems (seen : Bool) (_ : Nat) (action : LensAction) : List String :=
  if trim action.id = "" || seen then
    ["actions: duplicate or empty action id " ++ debug action.id]
  else []

def condition_problems (i : Nat) (rule : ConditionRule) : List String :=
  (if trim rule.condition_type = "" then
    ["conditions[" ++ toString i ++ "].condition_type: must not be empty"] else []) ++
  if is_condition_status rule.status then []
  else ["conditions[" ++ toString i ++ "].status " ++ debug rule.status ++
    ": must be one of \"True\", \"False\", \"Unknown\""]

def health_problems (seen : Bool) (i : Nat) (check : HealthCheck) : List String :=
  (if trim check.id = "" || seen then
    ["health[" ++ toString i ++ "]: duplicate or empty check id " ++ debug check.id] else []) ++
  (if valid_header_key check.label_key then []
    else ["health[" ++ toString i ++ "].label_key " ++ debug check.label_key ++
      ": must be a dotted i18n key (e.g. \"health.ready\")"]) ++
  (if valid_field_path check.field then []
    else ["health[" ++ toString i ++ "].field " ++ debug check.field ++
      ": not a dotted JSON path"]) ++
  value_problems ("health[" ++ toString i ++ "]") check.op check.value

def validate_viewdef (vd : ViewDefinition) : List String :=
  id_problems debug vd.id ++
  api_version_problems vd.api_version ++
  target_problems vd.target ++
  seen_loop (fun col => col.id) (column_problems debug) [] 0 vd.columns ++
  (vd.status.zipIdx.flatMap fun (rule, i) => status_problems debug i rule) ++
  seen_loop LensAction.id (action_problems debug) [] 0 vd.actions ++
  (vd.conditions.zipIdx.flatMap fun (rule, i) => condition_problems debug i rule) ++
  seen_loop HealthCheck.id (health_problems debug) [] 0 vd.health

/-- The loader takes the document: it deserializes, and there is no problem. -/
def Loads (d : Value) (vd : ViewDefinition) : Prop :=
  ViewDefinition.deserialize d = some vd ∧ validate_viewdef debug vd = []

end

/-! ## What is read -/

theorem GroupVersionKind.deserialize_eq_some {v : Value} {t : GroupVersionKind} :
    deserialize v = some t ↔ is_struct FIELDS v = true ∧
      with_default "" string (field FIELDS v "group") = some t.group ∧
      required string (field FIELDS v "version") = some t.version ∧
      required string (field FIELDS v "kind") = some t.kind := by
  obtain ⟨group, version, kind⟩ := t
  simp [deserialize, struct_eq_some, Option.bind_eq_some_iff]

theorem Column.deserialize_eq_some {v : Value} {c : Column} :
    deserialize v = some c ↔ is_struct FIELDS v = true ∧
      required string (serde.field FIELDS v "id") = some c.id ∧
      required string (serde.field FIELDS v "header_key") = some c.header_key ∧
      required (variant COLUMN_KINDS) (serde.field FIELDS v "kind") = some c.kind ∧
      required boolean (serde.field FIELDS v "sortable") = some c.sortable ∧
      with_default none (option string) (serde.field FIELDS v "field") = some c.field := by
  simp only [deserialize, struct_eq_some, Option.bind_eq_bind, Option.bind_eq_some_iff,
    Option.pure_def, Option.some.injEq]
  constructor
  · rintro ⟨hv, id, hid, key, hkey, kind, hkind, sortable, hsortable, field, hfield, rfl⟩
    exact ⟨hv, hid, hkey, hkind, hsortable, hfield⟩
  · rintro ⟨hv, hid, hkey, hkind, hsortable, hfield⟩
    exact ⟨hv, _, hid, _, hkey, _, hkind, _, hsortable, _, hfield, rfl⟩

theorem deserialize_status_rule_eq_some {v : Value} {r : StatusRule} :
    deserialize_status_rule v = some r ↔ is_struct status_rule_fields v = true ∧
      required string (field status_rule_fields v "field") = some r.field ∧
      required (variant RULE_OPS) (field status_rule_fields v "op") = some r.op ∧
      field status_rule_fields v "value" = some r.value ∧
      required (variant STATUS_LEVELS) (field status_rule_fields v "level") = some r.level := by
  obtain ⟨path, op, value, level⟩ := r
  simp [deserialize_status_rule, struct_eq_some, Option.bind_eq_some_iff, required]

theorem deserialize_condition_rule_eq_some {v : Value} {r : ConditionRule} :
    deserialize_condition_rule v = some r ↔ is_struct condition_rule_fields v = true ∧
      required string (field condition_rule_fields v "condition_type") = some r.condition_type ∧
      required string (field condition_rule_fields v "status") = some r.status ∧
      required (variant STATUS_LEVELS) (field condition_rule_fields v "level") = some r.level := by
  obtain ⟨condition_type, status, level⟩ := r
  simp [deserialize_condition_rule, struct_eq_some, Option.bind_eq_some_iff]

theorem HealthCheck.deserialize_eq_some {v : Value} {c : HealthCheck} :
    deserialize v = some c ↔ is_struct FIELDS v = true ∧
      required string (serde.field FIELDS v "id") = some c.id ∧
      required string (serde.field FIELDS v "label_key") = some c.label_key ∧
      required string (serde.field FIELDS v "field") = some c.field ∧
      required (variant RULE_OPS) (serde.field FIELDS v "op") = some c.op ∧
      serde.field FIELDS v "value" = some c.value ∧
      required (variant STATUS_LEVELS) (serde.field FIELDS v "level") = some c.level := by
  obtain ⟨id, label_key, path, op, value, level⟩ := c
  simp [deserialize, struct_eq_some, Option.bind_eq_some_iff, required]

theorem LensAction.deserialize_eq_some {v : Value} {a : LensAction} :
    deserialize v = some a ↔ is_struct FIELDS v = true ∧
      required string (field FIELDS v "id") = some a.id ∧
      required string (field FIELDS v "label_key") = some a.label_key ∧
      with_default default_action_state string (field FIELDS v "state") = some a.state := by
  obtain ⟨id, label_key, state⟩ := a
  simp [deserialize, struct_eq_some, Option.bind_eq_some_iff]

theorem ViewDefinition.deserialize_eq_some {v : Value} {vd : ViewDefinition} :
    deserialize v = some vd ↔ is_struct FIELDS v = true ∧
      required string (field FIELDS v "id") = some vd.id ∧
      required u32 (field FIELDS v "api_version") = some vd.api_version ∧
      required GroupVersionKind.deserialize (field FIELDS v "target") = some vd.target ∧
      with_default [] (vec Column.deserialize) (field FIELDS v "columns") = some vd.columns ∧
      with_default [] (vec deserialize_status_rule) (field FIELDS v "status") = some vd.status ∧
      with_default [] (vec deserialize_condition_rule) (field FIELDS v "conditions") =
        some vd.conditions ∧
      with_default [] (vec HealthCheck.deserialize) (field FIELDS v "health") = some vd.health ∧
      with_default [] (vec LensAction.deserialize) (field FIELDS v "actions") =
        some vd.actions := by
  obtain ⟨id, api_version, target, columns, status, conditions, health, actions⟩ := vd
  simp [deserialize, struct_eq_some, Option.bind_eq_some_iff]

/-! ## When there is no problem -/

/-- The operator can compare with the value. -/
def Comparable (op : RuleOp) (value : Value) : Prop :=
  (op ∈ [.Gt, .Gte, .Lt, .Lte] → is_number value = true) ∧
    (op = .Contains → is_string value = true)

theorem value_problems_eq_nil {place : String} {op : RuleOp} {value : Value} :
    value_problems place op value = [] ↔ Comparable op value := by
  cases op <;> simp [value_problems, Comparable]

/-- The loop lists nothing when no item has a problem, blank ids and ids seen before being
problems, and no id comes twice. -/
theorem seen_loop_eq_nil {α : Type} {id : α → String} {problems : Bool → Nat → α → List String}
    {Sound : α → Prop}
    (h : ∀ dup i x, problems dup i x = [] ↔ trim (id x) ≠ "" ∧ dup = false ∧ Sound x)
    {seen : List String} {i : Nat} {xs : List α} :
    seen_loop id problems seen i xs = [] ↔
      (∀ x ∈ xs, trim (id x) ≠ "" ∧ Sound x) ∧ (xs.map id).Nodup ∧ ∀ x ∈ xs, id x ∉ seen := by
  induction xs generalizing seen i with
  | nil => simp [seen_loop]
  | cons x xs ih =>
    simp only [seen_loop, List.append_eq_nil_iff, h, ih, decide_eq_false_iff_not,
      List.forall_mem_cons, List.map_cons, List.nodup_cons, List.mem_map, not_exists, not_and]
    constructor
    · rintro ⟨⟨hblank, hseen, hsound⟩, hall, hnodup, hrest⟩
      simp only [if_neg hblank, List.mem_cons, not_or] at hrest
      exact ⟨⟨⟨hblank, hsound⟩, hall⟩, ⟨fun y hy => (hrest y hy).1, hnodup⟩, hseen,
        fun y hy => (hrest y hy).2⟩
    · rintro ⟨⟨⟨hblank, hsound⟩, hall⟩, ⟨hnew, hnodup⟩, hseen, hrest⟩
      simp only [if_neg hblank, List.mem_cons, not_or]
      exact ⟨⟨hblank, hseen, hsound⟩, hall, hnodup, fun y hy => ⟨hnew y hy, hrest y hy⟩⟩

theorem enumerate_eq_nil {α : Type} {problems : Nat → α → List String} {Sound : α → Prop}
    (h : ∀ i x, problems i x = [] ↔ Sound x) {xs : List α} :
    (xs.zipIdx.flatMap fun (x, i) => problems i x) = [] ↔ ∀ x ∈ xs, Sound x := by
  rw [List.flatMap_eq_nil_iff]
  constructor
  · intro hall x hx
    obtain ⟨i, hi⟩ := List.mem_iff_getElem?.mp hx
    exact (h i x).mp (hall (x, i) (List.mk_mem_zipIdx_iff_getElem?.mpr hi))
  · rintro hall ⟨x, i⟩ hx
    exact (h i x).mpr (hall x (List.fst_mem_of_mem_zipIdx hx))

section

variable [AlphanumericTable] {debug : String → String}

/-- A column that is no status column has a field, and a field is a path. -/
def FieldBound (kind : ColumnKind) (field : Option String) : Prop :=
  (kind ≠ .Status → ∃ f, field = some f ∧ f ≠ "") ∧
    ∀ f, field = some f → f ≠ "" → valid_field_path f = true

theorem column_field_problems_eq_nil {col : Column} :
    column_field_problems debug col = [] ↔ FieldBound col.kind col.field := by
  unfold column_field_problems FieldBound
  cases col.field with
  | none => simp
  | some f => by_cases hf : f = "" <;> simp [hf]

theorem column_problems_eq_nil (dup : Bool) (i : Nat) (col : Column) :
    column_problems debug dup i col = [] ↔ trim col.id ≠ "" ∧ dup = false ∧
      valid_header_key col.header_key = true ∧ FieldBound col.kind col.field := by
  unfold column_problems
  rw [List.append_eq_nil_iff, List.append_eq_nil_iff, column_field_problems_eq_nil]
  by_cases hid : trim col.id = "" <;> cases dup <;> simp [hid]

theorem status_problems_eq_nil (i : Nat) (rule : StatusRule) :
    status_problems debug i rule = [] ↔
      valid_field_path rule.field = true ∧ Comparable rule.op rule.value := by
  unfold status_problems
  rw [List.append_eq_nil_iff, value_problems_eq_nil]
  simp

omit [AlphanumericTable] in
theorem action_problems_eq_nil (dup : Bool) (i : Nat) (action : LensAction) :
    action_problems debug dup i action = [] ↔ trim action.id ≠ "" ∧ dup = false ∧ True := by
  unfold action_problems
  by_cases hid : trim action.id = "" <;> cases dup <;> simp [hid]

omit [AlphanumericTable] in
theorem condition_problems_eq_nil (i : Nat) (rule : ConditionRule) :
    condition_problems debug i rule = [] ↔
      trim rule.condition_type ≠ "" ∧ is_condition_status rule.status = true := by
  unfold condition_problems
  rw [List.append_eq_nil_iff]
  simp

theorem health_problems_eq_nil (dup : Bool) (i : Nat) (check : HealthCheck) :
    health_problems debug dup i check = [] ↔ trim check.id ≠ "" ∧ dup = false ∧
      valid_header_key check.label_key = true ∧ valid_field_path check.field = true ∧
        Comparable check.op check.value := by
  unfold health_problems
  rw [List.append_eq_nil_iff, List.append_eq_nil_iff, List.append_eq_nil_iff,
    value_problems_eq_nil]
  by_cases hid : trim check.id = "" <;> cases dup <;> simp [hid, and_assoc]

/-- A definition without a problem. -/
structure Valid (vd : ViewDefinition) : Prop where
  id : trim vd.id ≠ "" ∧ '.' ∈ vd.id.toList
  api_version : vd.api_version = LENS_SCHEMA_VERSION
  target : trim vd.target.version ≠ "" ∧ trim vd.target.kind ≠ ""
  columns : ∀ c ∈ vd.columns, trim c.id ≠ "" ∧ valid_header_key c.header_key = true ∧
    FieldBound c.kind c.field
  column_ids : (vd.columns.map fun c => c.id).Nodup
  status : ∀ r ∈ vd.status, valid_field_path r.field = true ∧ Comparable r.op r.value
  actions : ∀ a ∈ vd.actions, trim a.id ≠ ""
  action_ids : (vd.actions.map LensAction.id).Nodup
  conditions : ∀ r ∈ vd.conditions,
    trim r.condition_type ≠ "" ∧ is_condition_status r.status = true
  health : ∀ c ∈ vd.health, trim c.id ≠ "" ∧ valid_header_key c.label_key = true ∧
    valid_field_path c.field = true ∧ Comparable c.op c.value
  health_ids : (vd.health.map HealthCheck.id).Nodup

theorem validate_viewdef_eq_nil {vd : ViewDefinition} :
    validate_viewdef debug vd = [] ↔ Valid vd := by
  have hid : id_problems debug vd.id = [] ↔ trim vd.id ≠ "" ∧ '.' ∈ vd.id.toList := by
    unfold id_problems
    by_cases hblank : trim vd.id = "" <;> simp [hblank]
  have hversion : api_version_problems vd.api_version = [] ↔
      vd.api_version = LENS_SCHEMA_VERSION := by
    simp [api_version_problems]
  have htarget : target_problems vd.target = [] ↔
      trim vd.target.version ≠ "" ∧ trim vd.target.kind ≠ "" := by
    simp [target_problems]
  unfold validate_viewdef
  simp only [List.append_eq_nil_iff, hid, hversion, htarget,
    seen_loop_eq_nil column_problems_eq_nil, seen_loop_eq_nil action_problems_eq_nil,
    seen_loop_eq_nil health_problems_eq_nil, enumerate_eq_nil status_problems_eq_nil,
    enumerate_eq_nil condition_problems_eq_nil]
  constructor
  · rintro ⟨⟨⟨⟨⟨⟨⟨h1, h2⟩, h3⟩, h4, h5, _⟩, h6⟩, h7, h8, _⟩, h9⟩, h10, h11, _⟩
    exact ⟨h1, h2, h3, h4, h5, h6, fun a ha => (h7 a ha).1, h8, h9, h10, h11⟩
  · rintro ⟨h1, h2, h3, h4, h5, h6, h7, h8, h9, h10, h11⟩
    refine ⟨⟨⟨⟨⟨⟨⟨h1, h2⟩, h3⟩, h4, h5, ?_⟩, h6⟩, ⟨fun a ha => ⟨h7 a ha, trivial⟩, h8, ?_⟩⟩, h9⟩,
      h10, h11, ?_⟩ <;> simp

end

end kaptein_viewmodel.viewdef
