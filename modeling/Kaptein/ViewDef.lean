-- The whole document of a lens (`lens.rs`, `surface.rs`) and the actions that it
-- declares, as the action graph of the frontends (`semantic.rs`) takes them.
import Kaptein.Lens

open serde_json kaptein_viewmodel.lens

namespace kaptein_viewmodel.viewdef

def LENS_SCHEMA_VERSION : Nat := 1

/-- The resource that a lens describes. The group is empty for core. -/
structure GroupVersionKind where
  group : String
  version : String
  kind : String
  deriving DecidableEq

/-- A column as it stands in the document. The rows read its first part. -/
structure Column extends lens.Column where
  header_key : String
  sortable : Bool

structure HealthCheck where
  id : String
  label_key : String
  field : String
  op : RuleOp
  value : Value
  level : StatusLevel

structure LensAction where
  id : String
  label_key : String
  state : String
  deriving DecidableEq

def default_action_state : String := "allowed"

structure ViewDefinition where
  id : String
  api_version : Nat
  target : GroupVersionKind
  columns : List Column
  status : List StatusRule
  conditions : List ConditionRule
  health : List HealthCheck
  actions : List LensAction

/-- The part of the document that gives the rows. -/
def ViewDefinition.to_lens (vd : ViewDefinition) : lens.ViewDefinition where
  columns := vd.columns.map Column.toColumn
  status := vd.status
  conditions := vd.conditions

/-! ## The action graph -/

inductive ActionState where
  | Allowed
  | Forbidden (verb resource : String) (namespace_ : Option String)
  | Gated (reason_key : String)
  deriving DecidableEq

structure Action where
  id : String
  label_key : String
  state : ActionState
  deriving DecidableEq

def LensAction.semantic_state (a : LensAction) : ActionState :=
  match a.state with
  | "gated" => .Gated "action.gated"
  | "forbidden" => .Forbidden "" "" none
  | _ => .Allowed

def ViewDefinition.actions_as_semantic (vd : ViewDefinition) : List Action :=
  vd.actions.map fun a => { id := a.id, label_key := a.label_key, state := a.semantic_state }

def action_verb (action_id : String) : String :=
  match action_id with
  | "delete" => "delete"
  | "scale" | "restart" | "update" | "apply" | "edit" | "cordon" | "drain" | "uncordon" => "update"
  | "describe" | "logs" | "exec" | "port-forward" | "diagnose" => "get"
  | _ => "get"

/-- Without an answer of the preflight the action stays as it is. -/
def downgrade_forbidden (action : Action) (verb_allowed : Option Bool) (resource : String)
    (namespace_ : Option String) : Action :=
  match verb_allowed with
  | none | some true => action
  | some false =>
    match action.state with
    | .Forbidden .. => action
    | _ => { action with state := .Forbidden (action_verb action.id) resource namespace_ }

/-- Every state that is not one of the other two words is allowed. -/
theorem semantic_state_allowed (a : LensAction) :
    a.semantic_state = .Allowed ↔ a.state ≠ "gated" ∧ a.state ≠ "forbidden" := by
  unfold LensAction.semantic_state
  split
  · rename_i h
    simp [h]
  · rename_i h
    simp [h]
  · rename_i hgated hforbidden
    exact iff_of_true rfl ⟨hgated, hforbidden⟩

end kaptein_viewmodel.viewdef
