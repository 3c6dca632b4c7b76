-- What governs a write: the class of the context, the gate that asks for a
-- reason, and the operations that must be gated and audited.
import Kaptein.Lib.Text

open rust_str

namespace kaptein_core.guardrails

inductive ContextClass where
  | Prod
  | Staging
  | Unknown
  deriving DecidableEq

structure Guardrails where
  prod : List String
  staging : List String
  deriving DecidableEq

/-- A pattern compiles to a test of names, or not at all. -/
abbrev Regex := String → Option (String → Bool)

section Classify

variable (regex : Regex)

/-- A pattern that does not compile matches nothing. -/
def name_matches (patterns : List String) (name : String) : Bool :=
  patterns.any fun p => match regex p with
    | some is_match => is_match name
    | none => false

def Guardrails.classify (g : Guardrails) (context_name : String) : ContextClass :=
  if name_matches regex g.prod context_name then .Prod
  else if name_matches regex g.staging context_name then .Staging
  else .Unknown

end Classify

def write_blocked : String :=
  "write blocked: context is classified as prod/unknown (read-only default). " ++
    "Re-run with --break-glass '<reason>' to override."

def gate_write (class_ : ContextClass) (break_glass_reason : Option String) : Except String Unit :=
  match class_ with
  | .Staging => .ok ()
  | .Prod | .Unknown =>
    match break_glass_reason with
    | some reason => if trim reason ≠ "" then .ok () else .error write_blocked
    | none => .error write_blocked

/-- Outside of staging the gate opens for a reason that is not blank, and for
nothing else. -/
theorem gate_write_ok_iff (class_ : ContextClass) (reason : Option String) :
    gate_write class_ reason = .ok () ↔
      class_ = .Staging ∨ ∃ r, reason = some r ∧ trim r ≠ "" := by
  cases class_ <;> cases reason <;> simp [gate_write]

end kaptein_core.guardrails

namespace kaptein_viewmodel.audit

structure ResourceRef where
  group : String
  kind : String
  namespace_ : String
  name : String
  deriving DecidableEq

inductive Operation where
  | List
  | Describe
  | Logs
  | Diagnose
  | Delete
  | Scale
  | Restart
  | Cordon
  | Drain
  | Evict
  | EphemeralAttach
  | Exec
  | PortForward
  | GitPrOpened
  | SecretViewed
  deriving DecidableEq

/-- The operations that change the cluster or open a channel into a pod. -/
def Operation.is_governed : Operation → Bool
  | .List | .Describe | .Logs | .Diagnose | .SecretViewed | .Drain | .GitPrOpened => false
  | _ => true

inductive Outcome where
  | Applied
  | DryRun
  | Rejected
  deriving DecidableEq

inductive Source where
  | Tui
  | Gui
  | Browser
  | Mcp
  | Headless
  deriving DecidableEq

inductive ActorKind where
  | Human
  | Agent
  deriving DecidableEq

structure Actor where
  kind : ActorKind
  name : String
  deriving DecidableEq

structure AuditEvent where
  timestamp : Int
  actor : Actor
  context : String
  operation : Operation
  target : ResourceRef
  outcome : Outcome
  source : Source
  session_id : String
  reason : Option String
  on_behalf_of : Option String
  deriving DecidableEq

end kaptein_viewmodel.audit
