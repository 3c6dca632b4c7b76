-- The commands of the palette beside the keys of the table. Two pieces of code do
-- the same work over the same state, and the palette leaves some of it out.
import Kaptein.Viewport

open runs rust_slice kaptein_viewmodel kaptein_viewmodel.mem_plane kaptein_viewmodel.fuzzy

namespace kaptein_tui

/-- The two states show the same view, and have the same history. -/
structure SameView (a b : State) : Prop where
  kind : a.kind = b.kind
  namespace_ : a.namespace_ = b.namespace_
  rows : a.rows = b.rows
  total : a.total = b.total
  selected : a.selected = b.selected
  scroll : a.scroll = b.scroll
  detail : a.detail = b.detail
  actions : a.actions = b.actions
  last_revision : a.last_revision = b.last_revision
  back : a.back = b.back
  forward : a.forward = b.forward

/-- Both give the same view, or both end the loop with the same error. -/
def Agrees : Except String State → Except String State → Prop
  | .ok a, .ok b => SameView a b
  | .error e, .error f => e = f
  | _, _ => False

theorem SameView.refl (a : State) : SameView a a :=
  ⟨rfl, rfl, rfl, rfl, rfl, rfl, rfl, rfl, rfl, rfl, rfl⟩

theorem sameView_detail (s : State) (d e : Option String) :
    SameView { s with detail := d } { s with detail := e } ↔ d = e := by
  constructor
  · intro h
    exact h.detail
  · rintro rfl
    exact SameView.refl _

theorem agrees_ok (a b : State) : Agrees (.ok a) (.ok b) ↔ SameView a b := Iff.rfl

/-- The key that stands for a command of the palette. -/
def key_of : PaletteCommand → Option Key
  | .NextKind => some .Tab
  | .NextNamespace => some (.Char 'n' false)
  | .DescribeSelected => some (.Char 'd' false)
  | .DiagnoseSelected => some (.Char 'i' false)
  | .CycleSort | .ToggleSortDirection | .Quit => none

/-- The row that a command acts on. -/
def command_target (s : State) : PaletteCommand → Option TableRow
  | .DescribeSelected => s.rows[s.selected]?
  | .DiagnoseSelected => if s.kind.is_pods then s.rows[s.selected]? else none
  | _ => none

/-- The row that a key acts on, unless the preflight forbids it. -/
def key_target (s : State) : Key → Option TableRow
  | .Char 'd' _ => if action_is_forbidden s.actions "describe" then none else s.target_row
  | .Char 'i' _ =>
    if action_is_forbidden s.actions "diagnose" then none
    else if s.kind.is_pods then s.target_row
    else none
  | _ => none

section

variable (std : StableSort) [TimestampText] [UppercaseTable] (kinds : Kinds) (cluster : Cluster)

def command_result (cmd : PaletteCommand) (s : State) : Except String State :=
  (execute_command std kinds cluster cmd s).map fun l => (l.settle std cluster).state

def key_result (key : Key) (s : State) : Except String State :=
  (press std kinds cluster key s).map fun l => (l.settle std cluster).state

/-- The command does what its key does, to the same row. -/
def CommandLikeKey (cmd : PaletteCommand) (key : Key) (s : State) : Prop :=
  Agrees (command_result std kinds cluster cmd s) (key_result std kinds cluster key s) ∧
    command_target s cmd = key_target s key

/-- The list request of a new view fails. -/
def FailsToOpen (kind : Kind) (namespace_ : Option String) : Prop :=
  ∃ e, cluster.list kind namespace_ = .error e

/-- The cursor stands on the same row, whether the scroll is counted or not. -/
def SameRow (s : State) : Prop := s.rows[s.selected]? = s.rows[s.selected - s.scroll]?

/-- Where a command and its key do the same. -/
def LikeKeyWhen (s : State) : PaletteCommand → Prop
  | .NextKind =>
    let next := s.take_kind (next_kind kinds s.kind)
    FailsToOpen cluster next.kind next.namespace_
  | .NextNamespace =>
    ∀ namespace_, cycle_namespace std cluster s.namespace_ = .ok namespace_ →
      FailsToOpen cluster s.kind namespace_
  | .DescribeSelected =>
    if action_is_forbidden s.actions "describe" then
      s.rows[s.selected]? = none ∧ s.detail = some "describe is forbidden by RBAC preflight."
    else SameRow s
  | .DiagnoseSelected =>
    action_is_forbidden s.actions "diagnose" = false ∧
      (s.kind.is_pods = true →
        SameRow s ∧ (s.rows[s.selected]? = none → s.detail = some PODS_ONLY))
  | .CycleSort | .ToggleSortDirection | .Quit => False

/-! ## A new view -/

omit [UppercaseTable] in
/-- The part of a command that opens a view, and the part of a key that does: the
key leaves a longer history behind, so they agree where no view is opened. -/
theorem open_view_agrees_iff (p k : State) (hkind : p.kind = k.kind)
    (hns : p.namespace_ = k.namespace_) (hback : p.back ≠ k.back) :
    Agrees ((rebuild_plane cluster p >>= fun s => pure (⟨s, .PaletteQuery⟩ : Loop)).map
        fun l => (l.settle std cluster).state)
      ((go_to cluster k).map fun l => (l.settle std cluster).state) ↔
      FailsToOpen cluster p.kind p.namespace_ := by
  unfold go_to FailsToOpen
  rw [rebuild_plane_eq, rebuild_plane_eq, ← hkind, ← hns]
  cases cluster.list p.kind p.namespace_ with
  | error e => exact iff_of_true rfl ⟨e, rfl⟩
  | ok rows =>
    refine iff_of_false ?_ ?_
    · intro h
      exact hback h.back
    · rintro ⟨e, he⟩
      cases he

theorem next_kind_like_tab_iff (s : State) (hn : Normal s) :
    CommandLikeKey std kinds cluster .NextKind .Tab s ↔
      LikeKeyWhen std kinds cluster s .NextKind := by
  have hkey : key_result std kinds cluster .Tab s =
      (go_to cluster ((record_nav s).take_kind (next_kind kinds s.kind))).map
        fun l => (l.settle std cluster).state := by
    simp [key_result, press, hn.help, hn.palette, tab, record_nav]
  unfold CommandLikeKey
  rw [hkey]
  refine (and_iff_left rfl).trans ?_
  apply open_view_agrees_iff
  · rfl
  · rfl
  · simp [State.take_kind, record_nav]

theorem next_namespace_like_n_iff (s : State) (hn : Normal s) :
    CommandLikeKey std kinds cluster .NextNamespace (.Char 'n' false) s ↔
      LikeKeyWhen std kinds cluster s .NextNamespace := by
  have hkey : key_result std kinds cluster (.Char 'n' false) s =
      (next_namespace std cluster s).map fun l => (l.settle std cluster).state := by
    simp [key_result, press, char_key, hn.help, hn.palette]
  unfold CommandLikeKey
  rw [hkey]
  refine (and_iff_left rfl).trans ?_
  unfold command_result execute_command next_namespace LikeKeyWhen
  have hsame : cycle_namespace std cluster (record_nav s).namespace_ =
      cycle_namespace std cluster s.namespace_ := rfl
  simp only [hsame]
  cases cycle_namespace std cluster s.namespace_ with
  | error e => exact iff_of_true rfl fun namespace_ h => by cases h
  | ok namespace_ =>
    refine Iff.trans (open_view_agrees_iff std cluster { s with namespace_ }
      { record_nav s with namespace_ } rfl rfl ?_) ?_
    · simp [record_nav]
    · constructor
      · rintro h _ ⟨⟩
        exact h
      · intro h
        exact h namespace_ rfl

/-! ## An action on the row under the cursor -/

omit [UppercaseTable] in
theorem describe_command (s : State) :
    command_result std kinds cluster .DescribeSelected s = .ok { s with
      detail := match s.rows[s.selected]? with
        | some r => (cluster.describe s.kind r).toOption
        | none => s.detail } := by
  unfold command_result execute_command
  cases s.rows[s.selected]? <;> rfl

omit [UppercaseTable] in
theorem diagnose_command (s : State) :
    command_result std kinds cluster .DiagnoseSelected s = .ok { s with
      detail := match s.kind.is_pods, s.rows[s.selected]? with
        | true, some r => (cluster.diagnose r).toOption
        | _, _ => some PODS_ONLY } := by
  unfold command_result execute_command
  cases s.kind.is_pods <;> cases s.rows[s.selected]? <;> rfl

omit [TimestampText] [UppercaseTable] in
theorem on_target_eq (s : State) (act : TableRow → Except String String)
    (h : s.jump_query = none) :
    s.on_target act = { s with
      detail := match s.rows[s.selected - s.scroll]? with
        | some r => (act r).toOption
        | none => s.detail } := by
  unfold State.on_target
  rw [target_row_normal s h]
  cases s.rows[s.selected - s.scroll]? <;> rfl

theorem describe_like_d_iff (s : State) (hn : Normal s) :
    CommandLikeKey std kinds cluster .DescribeSelected (.Char 'd' false) s ↔
      LikeKeyWhen std kinds cluster s .DescribeSelected := by
  have hkey : key_result std kinds cluster (.Char 'd' false) s =
      .ok (describe_selected cluster s) := by
    simp [key_result, press, char_key, hn.help, hn.palette, Except.map, Loop.settle]
  unfold CommandLikeKey LikeKeyWhen
  rw [hkey, describe_command]
  simp only [command_target, key_target, describe_selected]
  cases hf : action_is_forbidden s.actions "describe" with
  | true =>
    simp only [if_true]
    rw [agrees_ok, sameView_detail]
    cases s.rows[s.selected]? with
    | none => simp
    | some r => simp
  | false =>
    simp only [Bool.false_eq_true, if_false]
    rw [on_target_eq s _ hn.jump, agrees_ok, sameView_detail, target_row_normal s hn.jump]
    unfold SameRow
    constructor
    · intro h
      exact h.2
    · intro h
      rw [h]
      exact ⟨rfl, rfl⟩

theorem diagnose_like_i_iff (s : State) (hn : Normal s) :
    CommandLikeKey std kinds cluster .DiagnoseSelected (.Char 'i' false) s ↔
      LikeKeyWhen std kinds cluster s .DiagnoseSelected := by
  have hkey : key_result std kinds cluster (.Char 'i' false) s =
      .ok (diagnose_selected cluster s) := by
    simp [key_result, press, char_key, hn.help, hn.palette, Except.map, Loop.settle]
  unfold CommandLikeKey LikeKeyWhen
  rw [hkey, diagnose_command]
  simp only [command_target, key_target, diagnose_selected]
  cases hf : action_is_forbidden s.actions "diagnose" with
  | true =>
    -- the key says that the action is forbidden, which no command ever says
    simp only [if_true]
    rw [agrees_ok, sameView_detail]
    cases s.kind.is_pods with
    | false => simp [PODS_ONLY]
    | true =>
      cases s.rows[s.selected]? with
      | none => simp [PODS_ONLY]
      | some r => simp
  | false =>
    cases hp : s.kind.is_pods with
    | false => simp [agrees_ok, SameView.refl]
    | true =>
      simp only [Bool.false_eq_true, if_false, if_true]
      rw [on_target_eq s _ hn.jump, agrees_ok, sameView_detail,
        target_row_normal s hn.jump]
      unfold SameRow
      cases s.rows[s.selected]? with
      | none =>
        cases s.rows[s.selected - s.scroll]? with
        | none => simp [eq_comm]
        | some r => simp
      | some r =>
        constructor
        · intro h
          exact ⟨trivial, fun _ => ⟨h.2, fun hnone => absurd hnone (Option.some_ne_none r)⟩⟩
        · intro h
          have hrow := (h.2 trivial).1
          rw [← hrow]
          exact ⟨rfl, rfl⟩

/-- A command of the palette does what its key does exactly when: for a new kind
or namespace, no view can be opened; for an action, the preflight allows it and
the row under the cursor is also the one at the place of the cursor, without the
scroll. -/
theorem command_is_like_its_key_iff (cmd : PaletteCommand) (key : Key) (s : State)
    (hkey : key_of cmd = some key) (hn : Normal s) :
    CommandLikeKey std kinds cluster cmd key s ↔ LikeKeyWhen std kinds cluster s cmd := by
  cases cmd with
  | NextKind =>
    cases hkey
    exact next_kind_like_tab_iff std kinds cluster s hn
  | NextNamespace =>
    cases hkey
    exact next_namespace_like_n_iff std kinds cluster s hn
  | DescribeSelected =>
    cases hkey
    exact describe_like_d_iff std kinds cluster s hn
  | DiagnoseSelected =>
    cases hkey
    exact diagnose_like_i_iff std kinds cluster s hn
  | CycleSort => cases hkey
  | ToggleSortDirection => cases hkey
  | Quit => cases hkey

end

/-- On the pods that have just been listed, the palette describes what `d` describes. -/
theorem describe_of_the_first_pod :
    let opened := @State.opened mergeSort plain_timestamps three_pods
    @CommandLikeKey mergeSort plain_timestamps ascii_uppercase (all_kinds []) empty_cluster
      .DescribeSelected (.Char 'd' false) opened := by
  intro opened
  have hopened : Normal opened := ⟨rfl, rfl, rfl, by decide⟩
  exact (@command_is_like_its_key_iff mergeSort plain_timestamps ascii_uppercase (all_kinds [])
    empty_cluster .DescribeSelected (.Char 'd' false) opened rfl hopened).mpr rfl

/-- The first table of a session: the command for the next kind leaves no way
back, and `Tab` does. -/
theorem next_kind_leaves_no_way_back :
    ∃ l s, start (all_kinds []) empty_cluster = .ok l ∧
      exec (@Loop.step mergeSort plain_timestamps ascii_uppercase (all_kinds [])) l
        [.Advance empty_cluster, .Advance empty_cluster, .Advance empty_cluster, .Draw 20] =
          some ⟨s, .Poll⟩ ∧
      ¬ @CommandLikeKey mergeSort plain_timestamps ascii_uppercase (all_kinds []) empty_cluster
        .NextKind .Tab s := by
  refine ⟨_, _, rfl, rfl, ?_⟩
  rintro ⟨h, _⟩
  have hback := h.back
  revert hback
  decide

end kaptein_tui
