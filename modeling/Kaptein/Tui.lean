-- The terminal frontend (`kaptein-tui`): a table over the rows of a live plane,
-- with a cursor, a window, named sorts, a fuzzy jump, a command palette and a
-- history. The loop is cut where it reads the plane, since the watch task may
-- write to the plane in between.
import Kaptein.Auth
import Kaptein.Fuzzy
import Kaptein.Object
import Kaptein.Query
import Kaptein.ViewDef

open rust_str rust_slice windows kaptein_core.auth kaptein_viewmodel kaptein_viewmodel.lens
  kaptein_viewmodel.viewdef kaptein_viewmodel.mem_plane kaptein_viewmodel.fuzzy

namespace kaptein_tui

/-! ## Kinds and rows -/

/-- A kind of the table. A lens gives its own columns. -/
structure Kind where
  label : String
  gvk : kube.GroupVersionKind
  cluster_scoped : Bool
  headers : List String
  name_col : Nat
  namespace_col : Option Nat
  status_col : Option Nat
  created_col : Option Nat
  lens : Option viewdef.ViewDefinition

def Kind.builtin (label group version kind : String) (cluster_scoped : Bool) : Kind where
  label := label
  gvk := { group, version, kind }
  cluster_scoped := cluster_scoped
  headers := ["NAME", "NAMESPACE", "STATUS", "CREATED"]
  name_col := 0
  namespace_col := if cluster_scoped then none else some 1
  status_col := some 2
  created_col := some 3
  lens := none

def Kind.is_pods (kind : Kind) : Bool := kind.gvk.kind == "Pod"

def builtin_kinds : List Kind :=
  [.builtin "Pods" "" "v1" "Pod" false, .builtin "Deployments" "apps" "v1" "Deployment" false,
    .builtin "Services" "" "v1" "Service" false, .builtin "Nodes" "" "v1" "Node" true,
    .builtin "Namespaces" "" "v1" "Namespace" true]

/-- The kinds of a session. The first of them is always there. -/
structure Kinds where
  first : Kind
  rest : List Kind

def Kinds.all (kinds : Kinds) : List Kind := kinds.first :: kinds.rest

/-- `all_kinds`: the kinds of the lenses come after the built-in ones. -/
def all_kinds (lens_kinds : List Kind) : Kinds where
  first := .builtin "Pods" "" "v1" "Pod" false
  rest := builtin_kinds.tail ++ lens_kinds

/-- The kind after the current one, the first one after the last one. -/
def next_kind (kinds : Kinds) (current : Kind) : Kind :=
  let i := (kinds.all.findIdx? fun k => k.label == current.label && k.gvk == current.gvk).getD 0
  kinds.all.get ⟨(i + 1) % kinds.all.length, Nat.mod_lt _ (Nat.succ_pos _)⟩

structure TableRow where
  name : String
  namespace_ : String
  cells : List String
  deriving DecidableEq

/-- The text of an instant, as the `jiff` crate gives it. -/
class TimestampText where
  format_timestamp : Int → String

def cell_text (cells : List Cell) (idx : Nat) : String := (cells[idx]?.map table.cell_text).getD ""

def display_text [TimestampText] : Cell → String
  | .Timestamp millis => TimestampText.format_timestamp millis
  | c => table.cell_text c

def table_row [TimestampText] (kind : Kind) (r : Row) : TableRow where
  name := cell_text r.cells kind.name_col
  namespace_ := ((kind.namespace_col.bind fun i => r.cells[i]?).map table.cell_text).getD ""
  cells := r.cells.map display_text

/-! ## The sort -/

inductive SortTarget where
  | Name
  | Namespace
  | Created
  | Status
  deriving DecidableEq

def SortTarget.column (target : SortTarget) (kind : Kind) : Option Nat :=
  match target with
  | .Name => some kind.name_col
  | .Namespace => kind.namespace_col
  | .Created => kind.created_col
  | .Status => kind.status_col

/-- A sort by a named column, or the other direction on the column that is
active. Without the column nothing changes. -/
def named_sort (kind : Kind) (target : SortTarget) (current : Nat) (descending : Bool) :
    Nat × Bool :=
  match target.column kind with
  | none => (current, descending)
  | some col => if current = col then (current, !descending) else (col, target == .Created)

def next_sort_key (key column_count : Nat) : Nat := (key + 1) % max column_count 1

/-! ## The answers of the cluster -/

/-- What the requests of one part of the loop are answered with. -/
structure Cluster where
  /-- The rows of the listed objects of a kind. -/
  list : Kind → Option String → Except String (List Row)
  namespaces : Except String (List String)
  review : Review
  /-- The plural that `kube` makes of a kind. -/
  plural : kube.GroupVersionKind → String
  describe : Kind → TableRow → Except String String
  diagnose : TableRow → Except String String
  lens_health : Kind → TableRow → Except String String
  logs : TableRow → Except String String
  blast_radius : Kind → TableRow → Except String String
  what_changed : TableRow → Except String String

/-- `preflight_actions`: a failed preflight downgrades nothing. -/
def preflight_actions (cluster : Cluster) (gvk : kube.GroupVersionKind)
    (namespace_ : Option String) (actions : List Action) : List Action :=
  match preflight cluster.review (cluster.plural gvk) gvk.group (namespace_.getD "") with
  | .error _ => actions
  | .ok found => actions.map fun action =>
      let allowed := (found.actions.find? fun p => p.1 == action_verb action.id).map Prod.snd
      downgrade_forbidden action allowed (cluster.plural gvk) namespace_

def preflight_actions_for (cluster : Cluster) (kind : Kind) (namespace_ : Option String) :
    List Action :=
  let actions := match kind.lens with
    | some vd => vd.actions_as_semantic
    | none => [⟨"describe", "action.describe", .Allowed⟩, ⟨"diagnose", "action.diagnose", .Allowed⟩]
  preflight_actions cluster kind.gvk namespace_ actions

def action_is_forbidden (actions : List Action) (id : String) : Bool :=
  actions.any fun a => a.id == id && match a.state with
    | .Forbidden .. => true
    | _ => false

/-! ## The state of the loop -/

structure NavPoint where
  gvk : kube.GroupVersionKind
  namespace_ : Option String
  deriving DecidableEq

/-- The arguments of a query of the plane. -/
structure Asked where
  kind : Kind
  sort_key : Nat
  sort_descending : Bool
  start : Nat
  end_ : Nat

/-- The variables of the loop. `asked` is no variable of the code: it holds the
arguments of the query that gave `rows`. -/
structure State where
  kind : Kind
  namespace_ : Option String := none
  sort_key : Nat := 0
  sort_descending : Bool := false
  plane : MemPlane
  scroll : Nat := 0
  selected : Nat := 0
  detail : Option String := none
  help : Bool := false
  breadcrumbs : Bool := true
  page_height : Nat := 10
  rows : List TableRow := []
  total : Nat := 0
  actions : List Action := []
  jump_query : Option String := none
  jump_master : List TableRow := []
  jump_order : List Nat := []
  palette_query : Option String := none
  back : List NavPoint := []
  forward : List NavPoint := []
  last_revision : Revision := 0
  asked : Asked := ⟨kind, 0, false, 0, 0⟩

/-- Where the loop stands between two reads of the plane. -/
inductive Phase where
  | InitialQuery
  | InitialRevision
  /-- The loop starts over. -/
  | Top
  /-- The revision has changed and was read. -/
  | Refresh (rev : Revision)
  | Draw
  /-- The loop waits for a key. -/
  | Poll
  /-- A plane was built for a key. -/
  | TopQuery
  | ReadRevision
  /-- A plane was built for a command of the palette. -/
  | PaletteQuery
  | JumpWindow
  | Quit
  deriving DecidableEq

structure Loop where
  state : State
  phase : Phase

/-! ## Planes -/

def RESOURCE_COLUMNS : List String := ["name", "namespace", "status", "created"]

def new_plane (kind : Kind) : MemPlane :=
  MemPlane.new (match kind.lens with
    | some vd => vd.columns.map fun c => c.id
    | none => RESOURCE_COLUMNS)

/-- A new plane, seeded from a list of the cluster. -/
def rebuild_plane (cluster : Cluster) (s : State) : Except String State := do
  let rows ← cluster.list s.kind s.namespace_
  pure { s with plane := (new_plane s.kind).run (rows.map .upsert) }

theorem rebuild_plane_eq (cluster : Cluster) (s : State) :
    rebuild_plane cluster s = (cluster.list s.kind s.namespace_).map fun rows =>
      { s with plane := (new_plane s.kind).run (rows.map .upsert) } := by
  unfold rebuild_plane
  cases cluster.list s.kind s.namespace_ <;> rfl

section

variable (std : StableSort) [TimestampText]

def sort_spec (plane : MemPlane) (sort_key : Nat) (descending : Bool) : SortSpec where
  column := (plane.column_ids[sort_key]?).getD "name"
  descending := descending

def query_plane (plane : MemPlane) (kind : Kind) (sort_key : Nat) (descending : Bool)
    (start end_ : Nat) : List TableRow × Nat :=
  let page := plane.page std
    { start, end_, sort := some (sort_spec plane sort_key descending), filter := none }
  (page.rows.map (table_row kind), page.total)

/-- The selection moved into the list, and the window moved around the selection. -/
def clamp_viewport (total selected scroll page_height : Nat) : Nat × Nat :=
  if total = 0 then (0, 0)
  else
    let page_height := max page_height 1
    let selected := min selected (total - 1)
    let scroll := min scroll (total - 1)
    if selected < scroll then (selected, selected)
    else if scroll + page_height ≤ selected then (selected, selected + 1 - page_height)
    else (selected, scroll)

def selected_row (rows : List TableRow) (selected scroll : Nat) (in_jump : Bool) :
    Option TableRow :=
  if in_jump then rows[selected]? else rows[selected - scroll]?

def jump_selected_row (master : List TableRow) (order : List Nat) (selected : Nat) :
    Option TableRow :=
  order[selected]?.bind fun i => master[i]?

/-- The window is fetched at the old place, and then the cursor is clamped. -/
def requery_window (plane : MemPlane) (kind : Kind) (sort_key : Nat) (descending : Bool)
    (selected scroll page_height : Nat) : List TableRow × Nat × Nat × Nat :=
  let (rows, total) :=
    query_plane std plane kind sort_key descending scroll (scroll + page_height)
  let (selected, scroll) := clamp_viewport total selected scroll page_height
  (rows, total, selected, scroll)

def State.asks (s : State) (start end_ : Nat) : Asked :=
  ⟨s.kind, s.sort_key, s.sort_descending, start, end_⟩

def State.query (s : State) (start end_ : Nat) : List TableRow × Nat :=
  query_plane std s.plane s.kind s.sort_key s.sort_descending start end_

def State.requery_and_assign (s : State) : State :=
  let (rows, total, selected, scroll) := requery_window std s.plane s.kind s.sort_key
    s.sort_descending s.selected s.scroll s.page_height
  { s with rows, total, selected, scroll, asked := s.asks s.scroll (s.scroll + s.page_height) }

/-- The rows and the total of one query. -/
def State.show (s : State) (start end_ : Nat) : State :=
  let (rows, total) := s.query std start end_
  { s with rows, total, asked := s.asks start end_ }

end

/-! ## History -/

def nav_point (s : State) : NavPoint := { gvk := s.kind.gvk, namespace_ := s.namespace_ }

/-- The first kind with the group, version and kind of a history point. -/
def find_kind (kinds : Kinds) (gvk : kube.GroupVersionKind) : Kind :=
  (kinds.all.find? fun k => k.gvk == gvk).getD kinds.first

/-- A fresh navigation forgets what was undone. -/
def record_nav (s : State) : State := { s with back := s.back ++ [nav_point s], forward := [] }

/-- A kind without namespaces drops the namespace. -/
def State.take_kind (s : State) (kind : Kind) : State :=
  { s with kind, namespace_ := if kind.cluster_scoped then none else s.namespace_ }

section

variable (std : StableSort)

/-- The namespace after the current one. The empty name stands for all of them. -/
def cycle_namespace (cluster : Cluster) (current : Option String) :
    Except String (Option String) := do
  let found ← cluster.namespaces
  let names := "" :: std.sort_by compare found
  let idx := (current.bind fun c => names.findIdx? (· == c)).getD 0
  let next := (names[(idx + 1) % names.length]?).getD ""
  pure (if next = "" then none else some next)

/-! ## The command palette -/

inductive PaletteCommand where
  | NextKind
  | NextNamespace
  | CycleSort
  | ToggleSortDirection
  | DescribeSelected
  | DiagnoseSelected
  | Quit
  deriving DecidableEq

def PaletteCommand.ALL : List PaletteCommand :=
  [.NextKind, .NextNamespace, .CycleSort, .ToggleSortDirection, .DescribeSelected,
    .DiagnoseSelected, .Quit]

def PaletteCommand.label : PaletteCommand → String
  | .NextKind => "next-kind"
  | .NextNamespace => "next-namespace"
  | .CycleSort => "cycle-sort"
  | .ToggleSortDirection => "toggle-sort-direction"
  | .DescribeSelected => "describe-selected"
  | .DiagnoseSelected => "diagnose-selected"
  | .Quit => "quit"

def palette_matches [UppercaseTable] (query : String) : List PaletteCommand :=
  if trim query = "" then PaletteCommand.ALL
  else
    (fuzzy_jump std (PaletteCommand.ALL.map PaletteCommand.label) query).filterMap fun m =>
      PaletteCommand.ALL.find? fun c => c.label == m.candidate

def is_quit_command (s : String) : Bool := ["q", "q!", "x", "wq"].contains (trim s)

variable [TimestampText]

/-- The end of a command that changed the view: the rows of the first window
alone are assigned, and not their total. -/
def State.palette_rows (s : State) : State :=
  { s with
    rows := (s.query std 0 s.page_height).1
    asked := s.asks 0 s.page_height
    selected := 0
    scroll := 0
    detail := none }

def describe_row (cluster : Cluster) (s : State) (r : TableRow) : State :=
  { s with detail := (cluster.describe s.kind r).toOption }

def diagnose_row (cluster : Cluster) (s : State) (r : TableRow) : State :=
  { s with detail := (cluster.diagnose r).toOption }

def PODS_ONLY : String := "Diagnostics are available for pods only."

/-- A command of the palette. It gives up on the first failed request. -/
def execute_command (kinds : Kinds) (cluster : Cluster) (cmd : PaletteCommand) (s : State) :
    Except String Loop :=
  match cmd with
  | .NextKind => do
    let s ← rebuild_plane cluster (s.take_kind (next_kind kinds s.kind))
    pure ⟨s, .PaletteQuery⟩
  | .NextNamespace => do
    let namespace_ ← cycle_namespace std cluster s.namespace_
    let s ← rebuild_plane cluster { s with namespace_ }
    pure ⟨s, .PaletteQuery⟩
  | .CycleSort =>
    let s := { s with sort_key := next_sort_key s.sort_key s.kind.headers.length }
    .ok ⟨s.palette_rows std, .Top⟩
  | .ToggleSortDirection =>
    let s := { s with sort_descending := !s.sort_descending }
    .ok ⟨s.palette_rows std, .Top⟩
  | .DescribeSelected =>
    match s.rows[s.selected]? with
    | some r => .ok ⟨describe_row cluster s r, .Top⟩
    | none => .ok ⟨s, .Top⟩
  | .DiagnoseSelected =>
    match s.kind.is_pods, s.rows[s.selected]? with
    | true, some r => .ok ⟨diagnose_row cluster s r, .Top⟩
    | _, _ => .ok ⟨{ s with detail := some PODS_ONLY }, .Top⟩
  | .Quit => .ok ⟨s, .Quit⟩

/-! ## The keys of the table -/

def State.list_len (s : State) : Nat :=
  if s.jump_query.isSome then s.jump_order.length else s.total

/-- Outside the jump mode the window is fetched again. -/
def State.requery_unless_jump (s : State) : State :=
  if s.jump_query.isNone then s.requery_and_assign std else s

def State.move_down (s : State) : State :=
  let selected := min (s.selected + 1) (s.list_len - 1)
  { s with
    selected
    scroll := if s.scroll + s.page_height ≤ selected then selected + 1 - s.page_height
      else s.scroll }

def State.move_up (s : State) : State :=
  let selected := s.selected - 1
  { s with selected, scroll := if selected < s.scroll then selected else s.scroll }

def State.to_top (s : State) : State := { s with selected := 0, scroll := 0 }

def State.to_bottom (s : State) : State :=
  let selected := s.list_len - 1
  { s with selected, scroll := selected - s.page_height }

def State.cycle_sort (s : State) : State :=
  { s with
    sort_key := next_sort_key s.sort_key s.kind.headers.length
    sort_descending := false
    selected := 0
    scroll := 0 }

def State.sort_by (s : State) (target : SortTarget) : State :=
  let (sort_key, sort_descending) := named_sort s.kind target s.sort_key s.sort_descending
  { s with sort_key, sort_descending, selected := 0, scroll := 0 }

/-- The row under the cursor. -/
def State.target_row (s : State) : Option TableRow :=
  if s.jump_query.isSome then jump_selected_row s.jump_master s.jump_order s.selected
  else selected_row s.rows s.selected s.scroll false

/-- An action on the row under the cursor, if there is one. -/
def State.on_target (s : State) (act : TableRow → Except String String) : State :=
  match s.target_row with
  | some r => { s with detail := (act r).toOption }
  | none => s

def describe_selected (cluster : Cluster) (s : State) : State :=
  if action_is_forbidden s.actions "describe" then
    { s with detail := some "describe is forbidden by RBAC preflight." }
  else s.on_target (cluster.describe s.kind)

def diagnose_selected (cluster : Cluster) (s : State) : State :=
  if action_is_forbidden s.actions "diagnose" then
    { s with detail := some "diagnose is forbidden by RBAC preflight." }
  else if s.kind.is_pods then s.on_target cluster.diagnose
  else { s with detail := some PODS_ONLY }

def health_selected (cluster : Cluster) (s : State) : State :=
  if s.kind.lens.isNone then
    { s with detail := some "Health checks are available for lens-driven kinds only." }
  else s.on_target (cluster.lens_health s.kind)

def logs_selected (cluster : Cluster) (s : State) : State :=
  if s.kind.is_pods then s.on_target cluster.logs
  else { s with detail := some "Logs are available for pods only." }

/-- Every key that changes the view ends its first part with a new plane. -/
def go_to (cluster : Cluster) (s : State) : Except String Loop := do
  let s ← rebuild_plane cluster s
  pure ⟨s, .TopQuery⟩

def tab (kinds : Kinds) (cluster : Cluster) (s : State) : Except String Loop :=
  let s := record_nav s
  go_to cluster (s.take_kind (next_kind kinds s.kind))

def next_namespace (cluster : Cluster) (s : State) : Except String Loop := do
  let s := record_nav s
  let namespace_ ← cycle_namespace std cluster s.namespace_
  go_to cluster { s with namespace_ }

/-- `[`: the last view is shown again, and this one goes onto the other stack. -/
def go_back (kinds : Kinds) (cluster : Cluster) (s : State) : Except String Loop :=
  match s.back.getLast? with
  | some prev =>
    go_to cluster { s with
      back := s.back.dropLast
      forward := s.forward ++ [nav_point s]
      kind := find_kind kinds prev.gvk
      namespace_ := prev.namespace_ }
  | none => .ok ⟨s, .Top⟩

def go_forward (kinds : Kinds) (cluster : Cluster) (s : State) : Except String Loop :=
  match s.forward.getLast? with
  | some next =>
    go_to cluster { s with
      forward := s.forward.dropLast
      back := s.back ++ [nav_point s]
      kind := find_kind kinds next.gvk
      namespace_ := next.namespace_ }
  | none => .ok ⟨s, .Top⟩

/-! ## The fuzzy jump -/

variable [UppercaseTable]

def fuzzy_rerank (rows : List TableRow) (query : String) : List Nat :=
  (fuzzy_rank_indices std (rows.map TableRow.name) query).map FuzzyRanked.index

def enter_jump (s : State) : State :=
  let (jump_master, total) := s.query std 0 50000
  { s with
    jump_master
    jump_order := List.range jump_master.length
    total
    selected := 0
    scroll := 0
    jump_query := some "" }

/-- A new query ranks the whole list again. -/
def State.rerank (s : State) (q : String) : State :=
  { s with
    jump_query := some q
    jump_order := fuzzy_rerank std s.jump_master q
    selected := 0
    scroll := 0 }

def jump_char (c : Char) (s : State) : State :=
  match s.jump_query with
  | some q => if c ≠ '/' then s.rerank std (q.push c) else s
  | none => s

def pop (q : String) : String := String.ofList q.toList.dropLast

def cancel_jump (s : State) : State :=
  let s := { s with jump_query := none }.show std s.scroll (s.scroll + s.page_height)
  { s with selected := min s.selected (s.total - 1) }

/-- The chosen row is looked up by its name in the whole list. -/
def accept_jump (s : State) : Loop :=
  match jump_selected_row s.jump_master s.jump_order s.selected with
  | some r =>
    let s := { s with jump_query := none }
    let (full, total) := s.query std 0 50000
    let selected := (full.findIdx? fun x => x.name == r.name).getD s.selected
    ⟨{ s with total, selected, scroll := (clamp_viewport total selected 0 s.page_height).2 },
      .JumpWindow⟩
  | none => ⟨{ s with jump_query := none }, .Top⟩

/-! ## One key -/

inductive Key where
  | Esc
  | Backspace
  | Enter
  | Tab
  | Down
  | Up
  | Char (c : Char) (ctrl : Bool)
  | Other
  deriving DecidableEq

/-- The characters of the table, while the palette is closed. In the jump mode
the others are typed into the query. -/
def char_key (kinds : Kinds) (cluster : Cluster) (c : Char) (s : State) : Except String Loop :=
  match c with
  | 'j' => .ok ⟨s.move_down.requery_unless_jump std, .Top⟩
  | 'k' => .ok ⟨s.move_up.requery_unless_jump std, .Top⟩
  | 'g' => .ok ⟨s.to_top.requery_unless_jump std, .Top⟩
  | 'G' => .ok ⟨s.to_bottom.requery_unless_jump std, .Top⟩
  | 'n' => next_namespace std cluster s
  | '[' => if s.jump_query.isNone then go_back kinds cluster s else .ok ⟨jump_char std c s, .Top⟩
  | ']' => if s.jump_query.isNone then go_forward kinds cluster s else .ok ⟨jump_char std c s, .Top⟩
  | 'O' => .ok ⟨s.cycle_sort.requery_unless_jump std, .Top⟩
  | 'N' => .ok ⟨(s.sort_by .Name).requery_unless_jump std, .Top⟩
  | 'A' => .ok ⟨(s.sort_by .Created).requery_unless_jump std, .Top⟩
  | 'P' => .ok ⟨(s.sort_by .Namespace).requery_unless_jump std, .Top⟩
  | 'S' => .ok ⟨(s.sort_by .Status).requery_unless_jump std, .Top⟩
  | 'd' => .ok ⟨describe_selected cluster s, .Top⟩
  | 'i' => .ok ⟨diagnose_selected cluster s, .Top⟩
  | 'h' => .ok ⟨health_selected cluster s, .Top⟩
  | 'y' => .ok ⟨s.on_target (cluster.describe s.kind), .Top⟩
  | 'l' => .ok ⟨logs_selected cluster s, .Top⟩
  | 'B' => .ok ⟨s.on_target (cluster.blast_radius s.kind), .Top⟩
  | 'W' => .ok ⟨s.on_target cluster.what_changed, .Top⟩
  | '/' => .ok ⟨enter_jump std s, .Top⟩
  | _ => .ok ⟨jump_char std c s, .Top⟩

/-- The line of the palette runs its best match, unless it is a quit of `vi`. -/
def enter_palette (kinds : Kinds) (cluster : Cluster) (q : String) (s : State) :
    Except String Loop :=
  if is_quit_command q then .ok ⟨s, .Quit⟩
  else
    match palette_matches std q with
    | cmd :: _ => execute_command std kinds cluster cmd { s with palette_query := none }
    | [] => .ok ⟨{ s with palette_query := none }, .Top⟩

/-- A pressed key. The arms stand in the order of the source. -/
def press (kinds : Kinds) (cluster : Cluster) (key : Key) (s : State) : Except String Loop :=
  let free := s.palette_query.isNone && s.jump_query.isNone
  match key with
  | .Esc =>
    if s.palette_query.isSome then .ok ⟨{ s with palette_query := none }, .Top⟩
    else if s.jump_query.isSome then .ok ⟨cancel_jump std s, .Top⟩
    else .ok ⟨{ s with help := false }, .Top⟩
  | .Char c ctrl =>
    if c = '?' && free then .ok ⟨{ s with help := !s.help }, .Top⟩
    else if c = 'c' && ctrl && free then .ok ⟨s, .Quit⟩
    else if c = 'g' && ctrl && free then .ok ⟨{ s with breadcrumbs := !s.breadcrumbs }, .Top⟩
    else if c = 'r' && ctrl && free then go_to cluster s
    else if s.help then .ok ⟨{ s with help := false }, .Top⟩
    else if c = ':' && free then .ok ⟨{ s with palette_query := some "" }, .Top⟩
    else
      match s.palette_query with
      | some q =>
        if c ≠ ':' then .ok ⟨{ s with palette_query := some (q.push c) }, .Top⟩
        else .ok ⟨jump_char std c s, .Top⟩
      | none => char_key std kinds cluster c s
  | .Backspace =>
    if s.help then .ok ⟨{ s with help := false }, .Top⟩
    else
      match s.palette_query, s.jump_query with
      | some q, _ => .ok ⟨{ s with palette_query := some (pop q) }, .Top⟩
      | none, some q => .ok ⟨s.rerank std (pop q), .Top⟩
      | none, none => .ok ⟨s, .Top⟩
  | .Enter =>
    if s.help then .ok ⟨{ s with help := false }, .Top⟩
    else
      match s.palette_query with
      | some q => enter_palette std kinds cluster q s
      | none => if s.jump_query.isSome then .ok (accept_jump std s) else .ok ⟨s, .Top⟩
  | .Tab =>
    if s.help then .ok ⟨{ s with help := false }, .Top⟩
    else if s.palette_query.isNone then tab kinds cluster s
    else .ok ⟨s, .Top⟩
  | .Down =>
    if s.help then .ok ⟨{ s with help := false }, .Top⟩
    else if s.palette_query.isNone then .ok ⟨s.move_down.requery_unless_jump std, .Top⟩
    else .ok ⟨s, .Top⟩
  | .Up =>
    if s.help then .ok ⟨{ s with help := false }, .Top⟩
    else if s.palette_query.isNone then .ok ⟨s.move_up.requery_unless_jump std, .Top⟩
    else .ok ⟨s, .Top⟩
  | .Other => .ok ⟨if s.help then { s with help := false } else s, .Top⟩

end

end kaptein_tui
