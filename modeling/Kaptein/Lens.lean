-- The render contract and the lens engine (`render.rs`, `lens.rs`): a lens
-- gives the columns of a row, each read from the object by a dotted path,
-- and the rules that infer its status.
import Kaptein.Lib.Value

open serde_json rust_str

namespace kaptein_viewmodel

/-! ## The render contract -/

abbrev RowId := String

abbrev Revision := Nat

inductive StatusLevel where
  | Ok
  | Info
  | Warning
  | Error
  | Pending
  deriving DecidableEq

inductive Cell where
  | Text (value : String)
  | Number (value : Int)
  | Timestamp (millis : Int)
  | Redacted
  | Status (level : StatusLevel) (label_key : String)
  deriving DecidableEq

structure Row where
  id : RowId
  cells : List Cell
  deriving DecidableEq

structure SortSpec where
  column : String
  descending : Bool
  deriving DecidableEq

structure Filter where
  expression : String
  deriving DecidableEq

structure Query where
  start : Nat
  end_ : Nat
  sort : Option SortSpec
  filter : Option Filter

structure Page where
  rows : List Row
  total : Nat
  revision : Revision
  deriving DecidableEq

inductive RowPatch where
  | Upsert (id : RowId) (row : Row)
  | Remove (id : RowId)
  deriving DecidableEq

end kaptein_viewmodel

namespace kaptein_viewmodel.lens

/-! ## A lens -/

inductive ColumnKind where
  | Text
  | Number
  | Timestamp
  | Status
  deriving DecidableEq

structure Column where
  id : String
  kind : ColumnKind
  field : Option String

inductive RuleOp where
  | Eq
  | Ne
  | Gt
  | Gte
  | Lt
  | Lte
  | Contains
  deriving DecidableEq

structure StatusRule where
  field : String
  op : RuleOp
  value : Value
  level : StatusLevel

structure ConditionRule where
  condition_type : String
  status : String
  level : StatusLevel

structure ViewDefinition where
  columns : List Column := []
  status : List StatusRule := []
  conditions : List ConditionRule := []

/-- A JSON value that went through the redaction. -/
structure Redacted where
  as_value : Value

/-- The text of a masked value. A string cell with this text is a mask. -/
def REDACTED_MARKER : String := "[REDACTED]"

/-! ## Paths -/

/-- The loop of `split_subscripts`: each turn takes one `[..]` off the end.
A turn shortens the segment, so its length is enough fuel. -/
def split_subscripts_loop : Nat → List Char → List Nat → List Char × List Nat
  | 0, segment, subs => (segment, subs)
  | fuel + 1, segment, subs =>
    if segment.getLast? = some ']' then
      match rfind '[' segment with
      | some open_ =>
        let inside := (segment.take (segment.length - 1)).drop (open_ + 1)
        split_subscripts_loop fuel (segment.take open_)
          (match parse_usize inside with
            | some n => n :: subs
            | none => subs)
      | none => (segment, subs)
    else (segment, subs)

def split_subscripts (segment : String) : String × List Nat :=
  let r := split_subscripts_loop segment.toList.length segment.toList []
  (String.ofList r.1, r.2)

/-- One segment of a path: the member, then each subscript. -/
def resolve_segment (cur : Value) (segment : String) : Option Value :=
  let (ident, subscripts) := split_subscripts segment
  subscripts.foldl (fun acc sub => acc.bind fun v => v.get_index sub) (cur.get ident)

def resolve_field (root : Value) (field : String) : Option Value :=
  (split '.' field).foldl (fun acc segment => acc.bind fun cur => resolve_segment cur segment)
    (some root)

/-! ## Status inference -/

/-- The comparisons of numbers. Operands that are no `i64` never match. -/
def compare_i64 (actual value : Value) (holds : Int → Int → Bool) : Bool :=
  match actual.as_i64, value.as_i64 with
  | some a, some b => holds a b
  | _, _ => false

def predicate_holds (field : String) (op : RuleOp) (value : Value) (resource : Redacted) : Bool :=
  match resolve_field resource.as_value field with
  | none => false
  | some actual =>
    match op with
    | .Eq => actual.eq value
    | .Ne => !actual.eq value
    | .Gt => compare_i64 actual value fun a b => decide (b < a)
    | .Gte => compare_i64 actual value fun a b => decide (b ≤ a)
    | .Lt => compare_i64 actual value fun a b => decide (a < b)
    | .Lte => compare_i64 actual value fun a b => decide (a ≤ b)
    | .Contains =>
      match actual.as_str, value.as_str with
      | some a, some b => contains a b
      | _, _ => false

def rule_matches (rule : StatusRule) (resource : Redacted) : Bool :=
  predicate_holds rule.field rule.op rule.value resource

def condition_matches (rule : ConditionRule) (resource : Redacted) : Bool :=
  match (resource.as_value.get "status").bind fun s => s.get "conditions" with
  | none => false
  | some conditions =>
    match conditions.as_array with
    | none => false
    | some list => list.any fun cond =>
        (cond.get "type").bind Value.as_str == some rule.condition_type &&
          (cond.get "status").bind Value.as_str == some rule.status

/-- The level of the first rule that matches, the scalar rules first. -/
def evaluate_status (vd : ViewDefinition) (resource : Redacted) : Option StatusLevel :=
  ((vd.status.find? fun rule => rule_matches rule resource).map StatusRule.level).or
    ((vd.conditions.find? fun rule => condition_matches rule resource).map ConditionRule.level)

/-! ## Rows -/

def empty_cell_for_kind : ColumnKind → Cell
  | .Number => .Number 0
  | _ => .Text ""

def level_label : StatusLevel → String
  | .Ok => "status.ok"
  | .Info => "status.info"
  | .Warning => "status.warning"
  | .Error => "status.error"
  | .Pending => "status.pending"

section
variable [FloatText]

/-- The cell of a value that the path of a data column reached. -/
def cell_for_value (kind : ColumnKind) : Option Value → Cell
  | some (.number n) => if n.is_i64 then .Number (n.as_i64.getD 0) else .Text n.to_string
  | some (.string s) => if s = REDACTED_MARKER then .Redacted else .Text s
  | some (.bool b) => .Text (if b then "true" else "false")
  | some .null => empty_cell_for_kind kind
  | none => empty_cell_for_kind kind
  | some other => .Text other.to_string

def cell_for_column (col : Column) (resource : Redacted) (vd : ViewDefinition) : Cell :=
  if col.kind = .Status then
    match evaluate_status vd resource with
    | some level => .Status level (level_label level)
    | none => .Status .Info "unknown"
  else
    match col.field with
    | none => empty_cell_for_kind col.kind
    | some field => cell_for_value col.kind (resolve_field resource.as_value field)

/-- The uid of the object, or its namespace and name. -/
def row_id (value : Value) : RowId :=
  let meta_str := fun k =>
    ((value.get "metadata").bind fun m => m.get k).bind Value.as_str
  match meta_str "uid" with
  | some uid => uid
  | none =>
    let name := (meta_str "name").getD ""
    let ns := (meta_str "namespace").getD ""
    if ns = "" then name else ns ++ "/" ++ name

def render_row (vd : ViewDefinition) (resource : Redacted) : Row :=
  { id := row_id resource.as_value
    cells := vd.columns.map fun col => cell_for_column col resource vd }

end

end kaptein_viewmodel.lens
