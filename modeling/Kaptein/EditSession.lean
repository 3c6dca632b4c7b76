-- `kaptein edit` (`edit.rs`): the live object in a file, the editor of the operator, and a
-- dry run of what the editor leaves. Edits of objects with other names do not meet.
import Kaptein.Apply
import Kaptein.Config
import Kaptein.Governance
import Kaptein.Lib.PrivateCells
import Kaptein.PrintedDiff
import Kaptein.Redact

open kube rust_str private_cells
open kaptein_core.apply kaptein_core.config kaptein_core.redact
open kaptein_viewmodel.audit kaptein_viewmodel.diff

namespace kaptein_core.describe

inductive RedactPolicy where
  | Redacted
  | Unredacted
  deriving DecidableEq

/-- The text of the object that the server answered. -/
def describe_dynamic_policy (yaml : Yaml) (got : Except String DynamicObject)
    (policy : RedactPolicy) : Except String String := do
  let obj ← got
  yaml.to_string (if policy = .Redacted then redact_object obj else obj)

end kaptein_core.describe

open kaptein_core.describe

namespace kaptein_cli.edit

/-- `str::split_whitespace`. -/
def split_whitespace (s : String) : List String :=
  ((s.toList.splitOnP is_whitespace).filter fun w => !w.isEmpty).map String.ofList

/-- How the editor ends, and the file that it leaves. -/
inductive EditorRun where
  | LaunchFails (error : String)
  | Exits (success : Bool) (status : String) (file : File)

/-- An edit, and how what it asks for is answered. -/
structure EditEnv where
  gvk : GroupVersionKind
  namespace_ : Option String
  name : String
  got : Except String DynamicObject
  current_context_name : Except String String
  user : Option String
  now_ms : Int
  editor : Option String
  /-- A write of the file that fails, and the file that it leaves. -/
  write_fault : Option (String × File)
  run_editor : (program : String) → (args : List String) → File → EditorRun
  read_error : String
  /-- The file can be removed. -/
  removes : Bool
  api : Submission → Except ApiError DynamicObject

inductive EditAct where
  | Get (gvk : GroupVersionKind) (namespace_ : Option String) (name : String)
  | Audited (event : AuditEvent)
  | RanEditor (program : String) (args : List String)
  | Submitted (request : Submission)

/-- The path depends on the name alone: two objects of one name share it, whatever their kinds
and namespaces are. -/
def temp_file_for (temp_dir name : String) : String :=
  temp_dir ++ "/kaptein-edit-" ++ name ++ ".yaml"

section Edit

variable (yaml : Yaml) (temp_dir : String) (env : EditEnv)

def secret_viewed : AuditEvent where
  timestamp := env.now_ms
  actor := { kind := .Human, name := env.user.getD "human" }
  context := match env.current_context_name with
    | .ok ctx => ctx
    | .error _ => ""
  operation := .SecretViewed
  target := {
    group := "", kind := env.gvk.kind, namespace_ := env.namespace_.getD "", name := env.name }
  outcome := .Applied
  source := .Tui
  session_id := "cli"
  reason := none
  on_behalf_of := none

/-- What is recorded once the object is there. -/
def views : List EditAct :=
  if is_secret_kind env.gvk.kind then [.Audited (secret_viewed env)] else []

/-- The value of `$EDITOR` in words, `vi` where it is not set. -/
def editor_words : List String := split_whitespace (env.editor.getD "vi")

def launch_failed (error : String) : String :=
  "failed to launch editor '" ++ env.editor.getD "vi" ++ "': " ++ error ++
    " (set $EDITOR to your editor of choice)"

def editor_exited (status : String) : String :=
  "editor '" ++ env.editor.getD "vi" ++ "' exited with " ++ status

def write (current : String) : Except String Unit × File :=
  match env.write_fault with
  | some (error, left) => (.error error, left)
  | none => (.ok (), .Present current.toByteArray true)

/-- The result is not looked at. -/
def remove_file (file : File) : File := if env.removes then .Absent else file

/-- What the command prints of a dry run. -/
def answer_text (current edited : String) (dry_run : DryRun) : String :=
  let diff := unified_diff current edited 3
  let verdict := if dry_run.accepted then "dry-run accepted (no changes applied)"
    else "dry-run REJECTED (no changes applied)"
  "diff (" ++ toString diff.added ++ "+/" ++ toString diff.removed ++ "-):\n" ++
    render_unified diff "live" "edited" ++ "\n\n" ++ verdict ++ ":\n" ++ dry_run.response_yaml

def UNCHANGED : String := "no changes made (edited document matches the live object)"

/-- What follows once the file is closed. -/
def conclude (current edited : String) : Except String String × List EditAct :=
  if trim edited = trim current then (.ok UNCHANGED, [])
  else
    let dry_run := dry_run_apply_patch yaml env.api edited
    (dry_run.result.map (answer_text current edited), dry_run.events.map .Submitted)

/-- The answer of an edit, the file that it leaves and what it did. -/
structure Edit where
  answer : Except String String
  file : File
  acts : List EditAct

/-- The end of an edit whose editor ended well: the file is read and removed. -/
def read_back (current : String) (file : File) (acts : List EditAct) : Edit :=
  match read_to_string file with
  | none => ⟨.error env.read_error, file, acts⟩
  | some edited =>
    let concluded := conclude yaml env current edited
    ⟨concluded.1, remove_file env file, acts ++ concluded.2⟩

/-- The editor over the file that holds the live object. -/
def open_editor (current : String) (file : File) (acts : List EditAct) : Edit :=
  match editor_words env with
  | [] => ⟨.error "$EDITOR is empty", file, acts⟩
  | program :: args =>
    let args := args ++ [temp_file_for temp_dir env.name]
    let acts := acts ++ [.RanEditor program args]
    match env.run_editor program args file with
    | .LaunchFails e => ⟨.error (launch_failed env e), file, acts⟩
    | .Exits false status file => ⟨.error (editor_exited env status), remove_file env file, acts⟩
    | .Exits true _ file => read_back yaml env current file acts

def edit_in_editor (file : File) : Edit :=
  let got := [.Get env.gvk env.namespace_ env.name]
  match describe_dynamic_policy yaml env.got .Unredacted with
  | .error e => ⟨.error e, file, got⟩
  | .ok current =>
    match write env current with
    | (.error e, file) => ⟨.error e, file, got ++ views env⟩
    | (.ok _, file) => open_editor yaml temp_dir env current file (got ++ views env)

/-! ## Step by step -/

/-- Where an edit stands between two of its accesses to the file. -/
inductive Stage where
  | Start
  | Fetched (current : String)
  | Written (current : String)
  | Left (error : String)
  | Edited (current : String)
  | Read (current edited : String)
  | Closed (current edited : String)
  | Done (answer : Except String String)

/-- The next step: one access to the file at most, and what comes with it. -/
def next : Program Stage File EditAct
  | .Start, file =>
    let got := [.Get env.gvk env.namespace_ env.name]
    match describe_dynamic_policy yaml env.got .Unredacted with
    | .error e => (.Done (.error e), file, got)
    | .ok current => (.Fetched current, file, got ++ views env)
  | .Fetched current, _ =>
    match write env current with
    | (.error e, file) => (.Done (.error e), file, [])
    | (.ok _, file) => (.Written current, file, [])
  | .Written current, file =>
    match editor_words env with
    | [] => (.Done (.error "$EDITOR is empty"), file, [])
    | program :: args =>
      let args := args ++ [temp_file_for temp_dir env.name]
      let ran := [.RanEditor program args]
      match env.run_editor program args file with
      | .LaunchFails e => (.Done (.error (launch_failed env e)), file, ran)
      | .Exits false status file => (.Left (editor_exited env status), file, ran)
      | .Exits true _ file => (.Edited current, file, ran)
  | .Left error, file => (.Done (.error error), remove_file env file, [])
  | .Edited current, file =>
    match read_to_string file with
    | none => (.Done (.error env.read_error), file, [])
    | some edited => (.Read current edited, file, [])
  | .Read current edited, file => (.Closed current edited, remove_file env file, [])
  | .Closed current edited, file =>
    let concluded := conclude yaml env current edited
    (.Done concluded.1, file, concluded.2)
  | .Done answer, file => (.Done answer, file, [])

end Edit

/-! ## The steps are the edit -/

section Steps

variable {yaml : Yaml} {temp_dir : String} {env : EditEnv}

/-- After so many steps the edit is done, with this answer, this file and these acts. -/
def EndsIn (yaml : Yaml) (temp_dir : String) (env : EditEnv) (n : Nat)
    (p : Local Stage File EditAct) (e : Edit) : Prop :=
  (Local.step (next yaml temp_dir env))^[n] p = ⟨.Done e.answer, e.file, e.acts⟩

theorem ends_of_next {p : Local Stage File EditAct} {n : Nat} {e : Edit} {stage : Stage}
    {file : File} {acts : List EditAct}
    (h : next yaml temp_dir env p.state p.cell = (stage, file, acts))
    (hrest : EndsIn yaml temp_dir env n ⟨stage, file, p.acts ++ acts⟩ e) :
    EndsIn yaml temp_dir env (n + 1) p e := by
  have hstep : Local.step (next yaml temp_dir env) p = ⟨stage, file, p.acts ++ acts⟩ := by
    rw [Local.step, h]
  unfold EndsIn at hrest ⊢
  rw [Function.iterate_succ_apply, hstep, hrest]

/-- An edit that is done makes no more steps. -/
theorem ends_done (n : Nat) (answer : Except String String) (file : File) (acts : List EditAct) :
    EndsIn yaml temp_dir env n ⟨.Done answer, file, acts⟩ ⟨answer, file, acts⟩ := by
  induction n with
  | zero => rfl
  | succ n ih =>
    refine ends_of_next rfl ?_
    rw [List.append_nil]
    exact ih

theorem read_back_ends (n : Nat) (current : String) (file : File) (acts : List EditAct) :
    EndsIn yaml temp_dir env (n + 3) ⟨.Edited current, file, acts⟩
      (read_back yaml env current file acts) := by
  unfold read_back
  cases hread : read_to_string file with
  | none =>
    refine ends_of_next (by simp only [next, hread]; rfl) ?_
    rw [List.append_nil]
    exact ends_done _ _ _ _
  | some edited =>
    refine ends_of_next (by simp only [next, hread]; rfl) (ends_of_next rfl (ends_of_next rfl ?_))
    rw [List.append_nil, List.append_nil]
    exact ends_done _ _ _ _

theorem open_editor_ends (n : Nat) (current : String) (file : File) (acts : List EditAct) :
    EndsIn yaml temp_dir env (n + 4) ⟨.Written current, file, acts⟩
      (open_editor yaml temp_dir env current file acts) := by
  unfold open_editor
  cases hwords : editor_words env with
  | nil =>
    refine ends_of_next (by simp only [next, hwords]; rfl) ?_
    rw [List.append_nil]
    exact ends_done _ _ _ _
  | cons program args =>
    simp only
    cases hrun : env.run_editor program (args ++ [temp_file_for temp_dir env.name]) file with
    | LaunchFails e =>
      exact ends_of_next (by simp only [next, hwords, hrun]) (ends_done _ _ _ _)
    | Exits success status left =>
      cases success with
      | false =>
        refine ends_of_next (by simp only [next, hwords, hrun]; rfl) (ends_of_next rfl ?_)
        rw [List.append_nil]
        exact ends_done _ _ _ _
      | true =>
        exact ends_of_next (by simp only [next, hwords, hrun]) (read_back_ends _ _ _ _)

/-- After six steps an edit has come to its end, and it is that of the edit in one. -/
theorem edit_ends (n : Nat) (file : File) :
    EndsIn yaml temp_dir env (n + 6) ⟨.Start, file, []⟩
      (edit_in_editor yaml temp_dir env file) := by
  unfold edit_in_editor
  cases hgot : describe_dynamic_policy yaml env.got .Unredacted with
  | error e => exact ends_of_next (by simp only [next, hgot]) (ends_done _ _ _ _)
  | ok current =>
    refine ends_of_next (by simp only [next, hgot]; rfl) ?_
    simp only
    cases hwrite : write env current with
    | mk written left =>
      cases written with
      | error e =>
        refine ends_of_next (by simp only [next, hwrite]; rfl) ?_
        rw [List.append_nil]
        exact ends_done _ _ _ _
      | ok u =>
        refine ends_of_next (by simp only [next, hwrite]; rfl) ?_
        rw [List.append_nil]
        exact open_editor_ends _ _ _ _

end Steps

/-! ## What an edit does -/

section Runs

variable (yaml : Yaml) (temp_dir : String) (env : EditEnv)

/-- The text of the live object, with nothing masked. -/
def Fetched (current : String) : Prop :=
  describe_dynamic_policy yaml env.got .Unredacted = .ok current

/-- How the editor ends that is opened on the text. -/
def Ends (current : String) (run : EditorRun) : Prop :=
  ∃ program args, editor_words env = program :: args ∧
    env.run_editor program (args ++ [temp_file_for temp_dir env.name])
      (.Present current.toByteArray true) = run

/-- The editor makes this text of the live one. -/
def EditsTo (current edited : String) : Prop :=
  ∃ status left, Ends temp_dir env current (.Exits true status left) ∧
    read_to_string left = some edited

def submissions (acts : List EditAct) : List Submission :=
  acts.filterMap fun
    | .Submitted request => some request
    | _ => none

def audits (acts : List EditAct) : List AuditEvent :=
  acts.filterMap fun
    | .Audited event => some event
    | _ => none

/-- The request is a dry run of the object that the edited text names, without the fields that
the server manages. -/
def DryRunOf (edited : String) (request : Submission) : Prop :=
  ∃ obj sent, yaml.from_str edited = .ok obj ∧ Stripped obj sent ∧ request.dry_run = true ∧
    request = .Patch (target_gvk obj) obj.metadata.namespace_ obj.name_any (patch_params true true)
      sent

/-- A dry run is sent of a text that the editor made of the live one, and of no other. -/
def Submits (current : String) (e : Edit) : Prop :=
  ∃ edited request, submissions e.acts = [request] ∧ EditsTo temp_dir env current edited ∧
    trim edited ≠ trim current ∧ DryRunOf yaml edited request ∧
    ∀ text, e.answer = .ok text → ∃ dry_run, text = answer_text current edited dry_run

/-- Nothing is sent. It is no error where the editor left the live text, but for spaces around
it. -/
def SendsNothing (current : String) (e : Edit) : Prop :=
  submissions e.acts = [] ∧ ∀ text, e.answer = .ok text → text = UNCHANGED ∧
    ∃ edited, EditsTo temp_dir env current edited ∧ trim edited = trim current

/-- An edit that fetched its object, from its answer, its file and its acts. -/
structure EditRun (current : String) (e : Edit) : Prop where
  sends : Submits yaml temp_dir env current e ∨ SendsNothing temp_dir env current e
  views : audits e.acts = if is_secret_kind env.gvk.kind then [secret_viewed env] else []
  /-- The live text stays in the file where no editor came up. -/
  keeps : env.write_fault = none →
    (editor_words env = [] ∨ ∃ error, Ends temp_dir env current (.LaunchFails error)) →
    e.file = .Present current.toByteArray true
  /-- Elsewhere the file is gone, unless it cannot be read back. -/
  removes : env.write_fault = none → env.removes = true → ∀ status success left,
    Ends temp_dir env current (.Exits success status left) →
    success = true ∧ read_to_string left = none ∧ e.file = left ∨ e.file = .Absent

end Runs

section Runs

variable {yaml : Yaml} {temp_dir : String} {env : EditEnv}

/-- Names that differ are edited in files that differ. -/
theorem temp_file_for_injective (temp_dir : String) :
    Function.Injective (temp_file_for temp_dir) := by
  intro name name' h
  have hlist := congrArg String.toList h
  simp only [temp_file_for, String.toList_append] at hlist
  exact String.toList_injective (List.append_cancel_left (List.append_cancel_right hlist))

theorem submissions_append (a b : List EditAct) :
    submissions (a ++ b) = submissions a ++ submissions b := List.filterMap_append

theorem audits_append (a b : List EditAct) : audits (a ++ b) = audits a ++ audits b :=
  List.filterMap_append

theorem submissions_views : submissions (views env) = [] := by
  unfold views
  split <;> rfl

theorem audits_views :
    audits (views env) = if is_secret_kind env.gvk.kind then [secret_viewed env] else [] := by
  unfold views
  split <;> rfl

theorem map_ok {α : Type} {x : Except String α} {f : α → String} {text : String}
    (h : x.map f = .ok text) : ∃ a, text = f a := by
  cases x with
  | error e => cases h
  | ok a =>
    cases h
    exact ⟨a, rfl⟩

/-- Either nothing is sent and the answer is that nothing was changed or an error, or one dry
run is sent. -/
theorem conclude_cases (yaml : Yaml) (env : EditEnv) (current edited : String) :
    audits (conclude yaml env current edited).2 = [] ∧
    (submissions (conclude yaml env current edited).2 = [] ∧
        (∀ text, (conclude yaml env current edited).1 = .ok text →
          trim edited = trim current ∧ text = UNCHANGED) ∨
      trim edited ≠ trim current ∧ ∃ request, DryRunOf yaml edited request ∧
        submissions (conclude yaml env current edited).2 = [request] ∧
        ∀ text, (conclude yaml env current edited).1 = .ok text →
          ∃ dry_run, text = answer_text current edited dry_run) := by
  unfold conclude
  split
  · rename_i hsame
    refine ⟨rfl, Or.inl ⟨rfl, ?_⟩⟩
    intro text h
    cases h
    exact ⟨hsame, rfl⟩
  · rename_i hother
    cases hobj : yaml.from_str edited with
    | error e =>
      have hrun : dry_run_apply_patch yaml env.api edited = Traced.fail e := by
        show (Traced.lift (yaml.from_str edited) >>= _) = _
        rw [hobj, Traced.lift_error_bind]
      rw [hrun]
      refine ⟨rfl, Or.inl ⟨rfl, ?_⟩⟩
      intro text h
      cases h
    | ok obj =>
      have hrun : dry_run_apply_patch yaml env.api edited =
          submit yaml env.api (.Patch (target_gvk (strip_server_managed obj))
            (strip_server_managed obj).metadata.namespace_ (strip_server_managed obj).name_any
            (patch_params true true) (strip_server_managed obj)) := by
        show (Traced.lift (yaml.from_str edited) >>= _) = _
        rw [hobj, Traced.lift_ok_bind]
      rw [hrun]
      refine ⟨rfl, Or.inr ⟨hother, _, ⟨obj, _, hobj, stripped obj, rfl, rfl⟩, rfl, ?_⟩⟩
      intro text h
      exact map_ok h

/-- The acts of an edit up to the editor. -/
def opened (env : EditEnv) : List EditAct := [.Get env.gvk env.namespace_ env.name] ++ views env

theorem submissions_opened : submissions (opened env) = [] := submissions_views

theorem audits_opened : audits (opened env) =
    if is_secret_kind env.gvk.kind then [secret_viewed env] else [] := audits_views

/-- The editor ends in one way. -/
theorem Ends.unique {current : String} {run run' : EditorRun} (h : Ends temp_dir env current run)
    (h' : Ends temp_dir env current run') : run = run' := by
  obtain ⟨program, args, hwords, rfl⟩ := h
  obtain ⟨program', args', hwords', rfl⟩ := h'
  rw [hwords] at hwords'
  cases hwords'
  rfl

theorem not_ends {current : String} {run : EditorRun} (hwords : editor_words env = []) :
    ¬Ends temp_dir env current run := by
  rintro ⟨program, args, h, -⟩
  rw [hwords] at h
  cases h

/-- An edit that ends with an error before its file is read. -/
theorem sendsNothing_of_error {current error : String} {file : File} {acts : List EditAct}
    (h : submissions acts = []) : SendsNothing temp_dir env current ⟨.error error, file, acts⟩ :=
  ⟨h, fun text htext => by cases htext⟩

theorem read_back_run {current status : String} {left : File} {acts : List EditAct}
    (hends : Ends temp_dir env current (.Exits true status left))
    (hsub : submissions acts = [])
    (haud : audits acts = if is_secret_kind env.gvk.kind then [secret_viewed env] else []) :
    EditRun yaml temp_dir env current (read_back yaml env current left acts) := by
  have hlaunched : ¬(editor_words env = [] ∨ ∃ e, Ends temp_dir env current (.LaunchFails e)) := by
    rintro (hwords | ⟨e, he⟩)
    · exact not_ends hwords hends
    · cases hends.unique he
  unfold read_back
  cases hread : read_to_string left with
  | none =>
    refine ⟨Or.inr (sendsNothing_of_error hsub), haud, fun _ h => absurd h hlaunched, ?_⟩
    intro _ _ status' success left' hends'
    cases hends.unique hends'
    exact Or.inl ⟨rfl, hread, rfl⟩
  | some edited =>
    have hedits : EditsTo temp_dir env current edited := ⟨status, left, hends, hread⟩
    obtain ⟨haud', hconclude⟩ := conclude_cases yaml env current edited
    refine ⟨?_, ?_, fun _ h => absurd h hlaunched, ?_⟩
    · rcases hconclude with ⟨hnone, hsame⟩ | ⟨hother, request, hdry, hone, htext⟩
      · refine Or.inr ⟨?_, ?_⟩
        · exact (submissions_append _ _).trans (by rw [hsub, hnone]; rfl)
        · intro text h
          obtain ⟨htrim, rfl⟩ := hsame text h
          exact ⟨rfl, edited, hedits, htrim⟩
      · refine Or.inl ⟨edited, request, ?_, hedits, hother, hdry, htext⟩
        exact (submissions_append _ _).trans (by rw [hsub, hone]; rfl)
    · exact (audits_append _ _).trans (by rw [haud, haud', List.append_nil])
    · intro _ hremoves status' success left' _
      exact Or.inr (if_pos hremoves)

theorem open_editor_run (current : String) :
    EditRun yaml temp_dir env current
      (open_editor yaml temp_dir env current (.Present current.toByteArray true) (opened env)) := by
  unfold open_editor
  cases hwords : editor_words env with
  | nil =>
    refine ⟨Or.inr (sendsNothing_of_error submissions_opened), audits_opened, fun _ _ => rfl, ?_⟩
    intro _ _ status success left hends
    exact absurd hends (not_ends hwords)
  | cons program args =>
    simp only
    have hsub : submissions (opened env ++
        [.RanEditor program (args ++ [temp_file_for temp_dir env.name])]) = [] := by
      rw [submissions_append, submissions_opened]
      rfl
    have haud : audits (opened env ++
        [.RanEditor program (args ++ [temp_file_for temp_dir env.name])]) =
          if is_secret_kind env.gvk.kind then [secret_viewed env] else [] := by
      rw [audits_append, audits_opened]
      exact List.append_nil _
    cases hrun : env.run_editor program (args ++ [temp_file_for temp_dir env.name])
        (.Present current.toByteArray true) with
    | LaunchFails e =>
      have hends : Ends temp_dir env current (.LaunchFails e) := ⟨program, args, hwords, hrun⟩
      refine ⟨Or.inr (sendsNothing_of_error hsub), haud, fun _ _ => rfl, ?_⟩
      intro _ _ status success left hends'
      cases hends.unique hends'
    | Exits success status left =>
      have hends : Ends temp_dir env current (.Exits success status left) :=
        ⟨program, args, hwords, hrun⟩
      cases success with
      | true => exact read_back_run hends hsub haud
      | false =>
        refine ⟨Or.inr (sendsNothing_of_error hsub), haud, ?_, ?_⟩
        · rintro _ (hnone | ⟨e, he⟩)
          · exact absurd hends (not_ends hnone)
          · cases hends.unique he
        · intro _ hremoves status' success left' _
          exact Or.inr (if_pos hremoves)

theorem edit_in_editor_run {current : String} (hfetched : Fetched yaml env current)
    (file : File) :
    EditRun yaml temp_dir env current (edit_in_editor yaml temp_dir env file) := by
  have hedit : edit_in_editor yaml temp_dir env file =
      match write env current with
      | (.error e, file) => ⟨.error e, file, opened env⟩
      | (.ok _, file) => open_editor yaml temp_dir env current file (opened env) := by
    unfold edit_in_editor
    rw [show describe_dynamic_policy yaml env.got .Unredacted = .ok current from hfetched]
    rfl
  rw [hedit]
  cases hfault : env.write_fault with
  | none =>
    have hwrite : write env current = (.ok (), .Present current.toByteArray true) := by
      rw [write, hfault]
    rw [hwrite]
    exact open_editor_run current
  | some fault =>
    obtain ⟨error, left⟩ := fault
    have hwrite : write env current = (.error error, left) := by
      rw [write, hfault]
    rw [hwrite]
    refine ⟨Or.inr (sendsNothing_of_error submissions_opened), audits_opened, ?_, ?_⟩
    · intro h
      rw [hfault] at h
      cases h
    · intro h
      rw [hfault] at h
      cases h

/-- Any schedule of edits of objects with names of their own. An edit that has had its six turns
is done, with the answer, the file and the acts of the same edit alone. If its object was
fetched, it sends nothing but a dry run of what its own editor made of its own live text, a
look at a secret is recorded, and the live text stays in the file where no editor came up. If
not, it did nothing but ask for the object. -/
theorem edits_do_not_meet {ι : Type} [DecidableEq ι] (yaml : Yaml) (temp_dir : String)
    (env : ι → EditEnv) (hnames : Function.Injective fun i => (env i).name)
    (files : String → File) (schedule : List ι) (i : ι) (hturns : 6 ≤ schedule.count i) :
    let start : World ι String Stage File EditAct := ⟨fun _ => .Start, files, fun _ => []⟩
    let after := start.run (fun i => next yaml temp_dir (env i))
      (fun i => temp_file_for temp_dir (env i).name) schedule
    let path := temp_file_for temp_dir (env i).name
    let e := edit_in_editor yaml temp_dir (env i) (files path)
    (after.state i = .Done e.answer ∧ after.cells path = e.file ∧ after.acts i = e.acts) ∧
    (∀ current, Fetched yaml (env i) current → EditRun yaml temp_dir (env i) current e) ∧
    ((∀ current, ¬Fetched yaml (env i) current) →
      e.file = files path ∧ e.acts = [.Get (env i).gvk (env i).namespace_ (env i).name]) := by
  intro start after path e
  have hpaths : Function.Injective fun i => temp_file_for temp_dir (env i).name :=
    (temp_file_for_injective temp_dir).comp hnames
  refine ⟨?_, ?_, ?_⟩
  · obtain ⟨n, hn⟩ := Nat.exists_eq_add_of_le' hturns
    have hends : after.view (fun i => temp_file_for temp_dir (env i).name) i =
        ⟨.Done e.answer, e.file, e.acts⟩ := by
      refine (view_run hpaths schedule start i).trans ?_
      rw [hn]
      exact edit_ends n (files path)
    exact ⟨congrArg Local.state hends, congrArg Local.cell hends, congrArg Local.acts hends⟩
  · intro current hfetched
    exact edit_in_editor_run hfetched (files path)
  · intro hnone
    have hedit : e = edit_in_editor yaml temp_dir (env i) (files path) := rfl
    unfold edit_in_editor at hedit
    cases hgot : describe_dynamic_policy yaml (env i).got .Unredacted with
    | ok current => exact absurd hgot (hnone current)
    | error error =>
      rw [hgot] at hedit
      rw [hedit]
      exact ⟨rfl, rfl⟩

/-- YAML, as far as the sample needs it: a secret with a name and a token. -/
def sample_yaml : Yaml where
  from_str := fun text => .ok ⟨some ⟨"v1", "Secret"⟩, { name := some text }, .null⟩
  to_string := fun obj => .ok ("token: t-" ++ obj.name_any)

/-- The edit of a secret with a blank `$EDITOR`. -/
def blank_editor (name : String) : EditEnv where
  gvk := ⟨"", "v1", "Secret"⟩
  namespace_ := some "default"
  name := name
  got := .ok ⟨some ⟨"v1", "Secret"⟩, { name := some name }, .null⟩
  current_context_name := .ok "staging"
  user := none
  now_ms := 0
  editor := some " "
  write_fault := none
  run_editor := fun _ _ _ => .LaunchFails "no such file"
  read_error := "stream did not contain valid UTF-8"
  removes := true
  api := fun _ => .error (.Other "unreachable")

/-- Two edits in turns. The token stays in the file where `$EDITOR` is blank. -/
theorem a_blank_editor_leaves_the_secret :
    let start : World Bool String Stage File EditAct :=
      ⟨fun _ => .Start, fun _ => .Absent, fun _ => []⟩
    let env := fun b => blank_editor (if b then "a" else "b")
    let after := start.run (fun b => next sample_yaml "/tmp" (env b))
      (fun b => temp_file_for "/tmp" (env b).name)
      ((List.replicate 6 [true, false]).flatten)
    after.cells "/tmp/kaptein-edit-a.yaml" = .Present "token: t-a".toByteArray true := by
  intro start env after
  have hnames : Function.Injective fun b => (env b).name := by
    intro b c h
    revert h
    cases b <;> cases c <;> simp [env, blank_editor]
  have h := edits_do_not_meet sample_yaml "/tmp" env hnames (fun _ => .Absent)
    ((List.replicate 6 [true, false]).flatten) true (by decide)
  have hfetched : Fetched sample_yaml (env true) "token: t-a" := rfl
  have hwords : editor_words (env true) = [] := by decide
  exact h.1.2.1.trans ((h.2.1 _ hfetched).keeps rfl (Or.inl hwords))

end Runs

end kaptein_cli.edit
