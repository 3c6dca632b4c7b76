-- How the interface starts: straight into the session of the default context, or with the
-- picker of all contexts, and in which modes the terminal is left.
import Kaptein.Governance
import Kaptein.Lib.StableSort
import Kaptein.Lib.Traced
import Kaptein.Tui

open rust_slice kaptein_core kaptein_core.guardrails

namespace kaptein_core.discovery

/-- The cluster and the user of a context. -/
structure Context where
  cluster : String
  user : Option String

structure NamedContext where
  name : String
  context : Option Context

structure Kubeconfig where
  current_context : Option String
  contexts : List NamedContext

structure ContextSummary where
  name : String
  cluster : String
  user : String
  current : Bool

def list_contexts (std : StableSort) (kc : Kubeconfig) : List ContextSummary :=
  let current := kc.current_context.getD ""
  std.sort_by (fun a b => compare a.name b.name) (kc.contexts.map fun named =>
    { name := named.name
      cluster := (named.context.map Context.cluster).getD ""
      user := (named.context.bind Context.user).getD ""
      current := named.name == current })

section Probe

variable (client_for_context : String → Except String Unit) (client_reachable : String → Bool)

/-- The client of the context is built, and its server answers in time. -/
def probe (c : ContextSummary) : Bool :=
  match client_for_context c.name with
  | .ok _ => client_reachable c.name
  | .error _ => false

/-- All probes at the same time, their answers in the order of the contexts. -/
def probe_contexts (contexts : List ContextSummary) : List Bool :=
  contexts.map (probe client_for_context client_reachable)

end Probe

end kaptein_core.discovery

open kaptein_core.discovery

namespace kaptein_tui

inductive StartupMode where
  | Direct
  | Picker
  deriving DecidableEq

def startup_mode (context_count : Nat) (default_reachable : Bool) : StartupMode :=
  if context_count == 0 || !default_reachable then .Picker else .Direct

def class_label : ContextClass → String
  | .Prod => "prod"
  | .Staging => "staging"
  | .Unknown => "unknown"

/-! ## The picker -/

structure Picker where
  selected : Nat
  quit_prompt : Option String

inductive PickerTurn where
  | Stays (p : Picker)
  | Returns (ctx : Option String)

/-- A pressed key. The arms stand in the order of the source. -/
def Picker.press (contexts : List ContextSummary) (key : Key) (p : Picker) : PickerTurn :=
  match key, p.quit_prompt with
  | .Char 'j' _, none | .Down, none =>
    .Stays { p with selected := min (p.selected + 1) (contexts.length - 1) }
  | .Char 'k' _, none | .Up, none => .Stays { p with selected := p.selected - 1 }
  | .Enter, none =>
    match contexts[p.selected]? with
    | some c => .Returns (some c.name)
    | none => .Stays p
  | .Esc, _ => .Stays { p with quit_prompt := none }
  | .Char 'c' true, _ => .Returns none
  | .Char ':' _, none => .Stays { p with quit_prompt := some "" }
  | .Char c _, some q =>
    if c ≠ ':' then .Stays { p with quit_prompt := some (q.push c) } else .Stays p
  | .Backspace, some q => .Stays { p with quit_prompt := some (pop q) }
  | .Enter, some q =>
    if is_quit_command q then .Returns none else .Stays { p with quit_prompt := none }
  | _, _ => .Stays p

/-- A line of the table, and whether it is drawn in reverse. -/
structure PickerRow where
  cells : List String
  reversed : Bool

structure PickerFrame where
  title : String
  /-- What stands there in place of the table, where there is no context. -/
  text : Option String
  header : List String
  rows : List PickerRow

def PickerFrame.highlighted (frame : PickerFrame) : List PickerRow :=
  frame.rows.filter PickerRow.reversed

section Frames

variable (regex : Regex) (guardrails : Guardrails) (contexts : List ContextSummary)
  (current : Option String)

def Picker.status_line (reach : Option (List Bool)) (p : Picker) : String :=
  match p.quit_prompt with
  | some q => " :" ++ q ++ " — Enter:quit  Esc:cancel "
  | none =>
    if contexts.isEmpty then " Contexts — none defined (no kubeconfig) — :q quit "
    else " Contexts — j/k select, Enter connect, :q quit (" ++
      (if reach.isSome then "probed" else "probing…") ++ ") "

/-- The cells of a context, where the probe of it has landed or not. -/
def context_cells (reached : Option Bool) (c : ContextSummary) : List String :=
  [if c.current || some c.name == current then "* " ++ c.name else c.name, c.cluster, c.user,
    match reached with
    | some true => "reachable"
    | some false => "unreachable"
    | none => "…",
    class_label (guardrails.classify regex c.name)]

/-- The lines of the table that are left for its rows on a terminal of this height: three go to
the title, two to the border and one to the header. -/
def table_lines (height : Nat) : Nat := height - 3 - 2 - 1

/-- What is drawn before the next key is read. The table is drawn from its first row on each
time, and the rows that do not fit are not seen. -/
def Picker.frame (height : Nat) (reach : Option (List Bool)) (p : Picker) : PickerFrame where
  title := p.status_line contexts reach
  text := if contexts.isEmpty then some ("No contexts are defined in the kubeconfig.\n\n" ++
      "Kaptein never fails to start — but there is nothing to connect to.\n" ++
      "Set up a kubeconfig (~/.kube/config or $KUBECONFIG) and run `kaptein tui` again.")
    else none
  header := if contexts.isEmpty then [] else ["CONTEXT", "CLUSTER", "USER", "REACHABLE", "CLASS"]
  rows := (contexts.take (table_lines height)).mapIdx fun i c =>
    { cells := context_cells regex guardrails current (reach.map fun r => r[i]?.getD false) c
      reversed := i == p.selected }

end Frames

inductive TickEvent where
  | DrawFails (error : String)
  | PollFails (error : String)
  | ReadFails (error : String)
  /-- No event in time, or one that is no pressed key. -/
  | Quiet
  | Pressed (key : Key)

/-- One turn of the picker: the height of the terminal and whether the probes have landed when it
draws, and what comes. -/
structure Tick where
  height : Nat
  landed : Bool
  event : TickEvent

inductive StartAct where
  | RawMode (on : Bool)
  | AlternateScreen (on : Bool)
  | Draw (frame : PickerFrame)
  | Session (ctx : Option String)

inductive Picked where
  /-- The picker still waits for a key. -/
  | Waits
  | Returned (ctx : Option String)

/-! ## The start -/

/-- What the start reads, and how the calls that may fail end. -/
structure StartEnv where
  kubeconfig : Except String Kubeconfig
  current_context_name : Except String String
  guardrails : Guardrails
  /-- The client of the default context, once for the probe and once for the session. -/
  client : Except String Unit
  client_again : Except String Unit
  default_answers : Bool
  /-- The clients of the named contexts, for the probes and for the session. -/
  probe_client : String → Except String Unit
  client_for_context : String → Except String Unit
  answers : String → Bool
  enable_raw_mode : Except String Unit
  enter_alternate_screen : Except String Unit
  terminal_new : Except String Unit
  disable_raw_mode : Except String Unit
  leave_alternate_screen : Except String Unit
  ticks : List Tick
  run_event_loop : Option String → Except String Unit

section Start

variable (std : StableSort) (regex : Regex) (env : StartEnv)

def StartEnv.contexts : List ContextSummary :=
  match env.kubeconfig with
  | .ok kc => list_contexts std kc
  | .error _ => []

def StartEnv.current : Option String := env.current_context_name.toOption

def StartEnv.default_reachable : Bool :=
  match env.client with
  | .ok _ => env.default_answers
  | .error _ => false

def StartEnv.mode : StartupMode :=
  startup_mode (env.contexts std).length env.default_reachable

/-- The rows that the channel of the probes holds. -/
def StartEnv.reach (landed : Bool) : Option (List Bool) :=
  if landed then some (probe_contexts env.probe_client env.answers (env.contexts std)) else none

def StartEnv.frame (height : Nat) (landed : Bool) (p : Picker) : PickerFrame :=
  p.frame regex env.guardrails (env.contexts std) env.current height (env.reach std landed)

def run_context_picker : List Tick → Picker → Traced StartAct Picked
  | [], _ => pure .Waits
  | tick :: ticks, p =>
    match tick.event with
    | .DrawFails e => Traced.fail e
    | .PollFails e | .ReadFails e => do
      Traced.emit (.Draw (env.frame std regex tick.height tick.landed p))
      Traced.fail e
    | .Quiet => do
      Traced.emit (.Draw (env.frame std regex tick.height tick.landed p))
      run_context_picker ticks p
    | .Pressed key => do
      Traced.emit (.Draw (env.frame std regex tick.height tick.landed p))
      match p.press (env.contexts std) key with
      | .Stays p => run_context_picker ticks p
      | .Returns ctx => pure (.Returned ctx)

/-- The session of a context. What its loop answers is kept until the terminal is restored. -/
def session (client : Except String Unit) (ctx : Option String) :
    Traced StartAct (Option (Except String Unit)) := do
  Traced.lift client
  Traced.emit (.Session ctx)
  pure (some (env.run_event_loop ctx))

/-- What runs between the set-up of the terminal and its restoration. There is no answer while
the picker waits. -/
def surface : Traced StartAct (Option (Except String Unit)) :=
  match env.mode std with
  | .Direct => session env env.client_again env.current
  | .Picker => do
    match ← run_context_picker std regex env env.ticks ⟨0, none⟩ with
    | .Waits => pure none
    | .Returned (some ctx) => session env (env.client_for_context ctx) (some ctx)
    | .Returned none => pure (some (.ok ()))

/-- That a mode cannot be left is passed over. -/
def restore (result : Option (Except String Unit)) :
    Traced StartAct (Option (Except String Unit)) := do
  if result.isSome then
    Traced.attempt do
      Traced.lift env.disable_raw_mode
      Traced.emit (.RawMode false)
    Traced.attempt do
      Traced.lift env.leave_alternate_screen
      Traced.emit (.AlternateScreen false)
  pure result

def run : Traced StartAct (Option (Except String Unit)) := do
  Traced.lift env.enable_raw_mode
  Traced.emit (.RawMode true)
  Traced.lift env.enter_alternate_screen
  Traced.emit (.AlternateScreen true)
  Traced.lift env.terminal_new
  let result ← surface std regex env
  restore env result

end Start

/-! ## One key -/

/-- The keys that leave the picker without a context. -/
def Leaves (key : Key) (p : Picker) : Prop :=
  key = .Char 'c' true ∨ key = .Enter ∧ ∃ q, p.quit_prompt = some q ∧ is_quit_command q = true

/-- What a key may do, from a picker whose highlight is in the table. -/
def PickerTurn.Sound (contexts : List ContextSummary) (key : Key) (p : Picker) : PickerTurn → Prop
  | .Stays p' => p'.selected ≤ contexts.length - 1
  | .Returns (some ctx) =>
    key = .Enter ∧ p.quit_prompt = none ∧ ∃ c, contexts[p.selected]? = some c ∧ ctx = c.name
  | .Returns none => Leaves key p

theorem press_sound {contexts : List ContextSummary} (key : Key) {p : Picker}
    (hp : p.selected ≤ contexts.length - 1) :
    (p.press contexts key).Sound contexts key p := by
  unfold Picker.press
  split
  · exact Nat.min_le_right _ _
  · exact Nat.min_le_right _ _
  · exact (Nat.sub_le _ _).trans hp
  · exact (Nat.sub_le _ _).trans hp
  · rename_i hprompt
    split
    · rename_i c hc
      exact ⟨rfl, hprompt, c, hc, rfl⟩
    · exact hp
  · exact hp
  · exact Or.inl rfl
  · exact hp
  · split <;> exact hp
  · exact hp
  · rename_i q hprompt
    split
    · rename_i hquit
      exact Or.inr ⟨rfl, q, hprompt, hquit⟩
    · exact hp
  · exact hp

/-! ## The frames -/

theorem filter_mapIdx_place {α β : Type} (f : Nat → α → β) (marked : β → Bool) (place : Nat)
    (xs : List α) (hf : ∀ i x, marked (f i x) = (i == place)) :
    (xs.mapIdx f).filter marked = (xs[place]?.map (f place)).toList := by
  induction xs generalizing f place with
  | nil => rfl
  | cons x xs ih =>
    rw [List.mapIdx_cons, List.filter_cons, hf]
    cases place with
    | zero =>
      have hrest : (xs.mapIdx fun i => f (i + 1)).filter marked = [] := by
        rw [List.filter_eq_nil_iff]
        intro y hy
        obtain ⟨i, hi, rfl⟩ := List.mem_mapIdx.mp hy
        simp [hf]
      simp [hrest]
    | succ place =>
      have hne : ((0 : Nat) == place + 1) = false := by simp
      rw [hne, if_neg Bool.false_ne_true]
      refine (ih (fun i => f (i + 1)) place ?_).trans (by simp)
      intro i x
      rw [hf]
      simp

section Runs

variable {std : StableSort} {regex : Regex} {env : StartEnv}

/-- The highlighted row of a frame is that of the selected context, with the answer of the
probe of that context. Below the lines of the table there is none. -/
theorem highlighted_frame {p : Picker} {c : ContextSummary}
    (hc : (env.contexts std)[p.selected]? = some c) (height : Nat) (landed : Bool) :
    (env.frame std regex height landed p).highlighted =
      if p.selected < table_lines height then
        [{ cells := context_cells regex env.guardrails env.current
            (if landed then some (probe env.probe_client env.answers c) else none) c
           reversed := true }]
      else [] := by
  refine (filter_mapIdx_place _ _ p.selected _ (fun i c => rfl)).trans ?_
  rw [List.getElem?_take]
  by_cases hfits : p.selected < table_lines height
  · have hreach : ((env.reach std landed).map fun r => r[p.selected]?.getD false) =
        if landed then some (probe env.probe_client env.answers c) else none := by
      cases landed with
      | false => rfl
      | true => simp [StartEnv.reach, probe_contexts, hc]
    rw [if_pos hfits, if_pos hfits, hc, Option.map_some, hreach, beq_self_eq_true]
    rfl
  · rw [if_neg hfits, if_neg hfits]
    rfl

/-- The frames of the picker, and how it ends. -/
structure PickerRun (std : StableSort) (regex : Regex) (env : StartEnv) (ticks : List Tick)
    (x : Traced StartAct Picked) : Prop where
  frames : ∀ act ∈ x.events, ∃ height landed p, act = .Draw (env.frame std regex height landed p) ∧
    p.selected ≤ (env.contexts std).length - 1
  picks : ∀ ctx, x.result = .ok (.Returned (some ctx)) → ∃ before height landed p c,
    x.events = before ++ [.Draw (env.frame std regex height landed p)] ∧ p.quit_prompt = none ∧
    (env.contexts std)[p.selected]? = some c ∧ ctx = c.name
  leaves : x.result = .ok (.Returned none) → ∃ before height landed p key,
    x.events = before ++ [.Draw (env.frame std regex height landed p)] ∧
    (∃ tick ∈ ticks, tick.event = .Pressed key) ∧ Leaves key p

theorem PickerRun.step {tick : Tick} {ticks : List Tick} {p : Picker}
    (hp : p.selected ≤ (env.contexts std).length - 1) {x : Traced StartAct Picked}
    (h : PickerRun std regex env ticks x) :
    PickerRun std regex env (tick :: ticks)
      (Traced.emit (.Draw (env.frame std regex tick.height tick.landed p)) >>= fun _ => x) := by
  rw [Traced.bind_ok (Traced.emit_result _)]
  refine ⟨?_, ?_, ?_⟩
  · intro act hact
    rcases List.mem_cons.mp hact with rfl | hact
    · exact ⟨tick.height, tick.landed, p, rfl, hp⟩
    · exact h.frames act hact
  · intro ctx hres
    obtain ⟨before, height, landed, p', c, hev, hrest⟩ := h.picks ctx hres
    exact ⟨_ :: before, height, landed, p', c, congrArg (List.cons _) hev, hrest⟩
  · intro hres
    obtain ⟨before, height, landed, p', key, hev, ⟨t, ht, hkey⟩, hleaves⟩ := h.leaves hres
    exact ⟨_ :: before, height, landed, p', key, congrArg (List.cons _) hev,
      ⟨t, List.mem_cons_of_mem _ ht, hkey⟩, hleaves⟩

/-- A picker that has no event to come. -/
theorem pickerRun_of_no_events {ticks : List Tick} {x : Traced StartAct Picked}
    (hev : x.events = []) (hres : ∀ ctx, x.result ≠ .ok (.Returned ctx)) :
    PickerRun std regex env ticks x := by
  refine ⟨?_, fun ctx h => absurd h (hres _), fun h => absurd h (hres _)⟩
  intro act hact
  rw [hev] at hact
  cases hact

theorem run_context_picker_runs (ticks : List Tick) {p : Picker}
    (hp : p.selected ≤ (env.contexts std).length - 1) :
    PickerRun std regex env ticks (run_context_picker std regex env ticks p) := by
  induction ticks generalizing p with
  | nil => exact pickerRun_of_no_events rfl (by intro ctx h; cases h)
  | cons tick ticks ih =>
    have hfail : ∀ e, PickerRun std regex env ticks (Traced.fail e) := fun e =>
      pickerRun_of_no_events rfl (by intro ctx h; cases h)
    unfold run_context_picker
    split
    · exact pickerRun_of_no_events rfl (by intro ctx h; cases h)
    · exact PickerRun.step hp (hfail _)
    · exact PickerRun.step hp (hfail _)
    · exact PickerRun.step hp (ih hp)
    · rename_i key hkey
      have hsound := press_sound key hp
      split
      · rename_i p' hturn
        rw [hturn] at hsound
        exact PickerRun.step hp (ih hsound)
      · rename_i ctx hturn
        rw [hturn] at hsound
        refine ⟨?_, ?_, ?_⟩
        · intro act hact
          rw [List.mem_singleton.mp hact]
          exact ⟨tick.height, tick.landed, p, rfl, hp⟩
        · intro ctx' hres
          cases hres
          obtain ⟨-, hprompt, c, hc, rfl⟩ := hsound
          exact ⟨[], tick.height, tick.landed, p, c, rfl, hprompt, hc, rfl⟩
        · intro hres
          cases hres
          exact ⟨[], tick.height, tick.landed, p, key, rfl, ⟨tick, List.mem_cons_self, hkey⟩,
            hsound⟩

/-! ## The whole start -/

structure TerminalModes where
  raw : Bool
  alternate : Bool
  deriving DecidableEq

def TerminalModes.after (m : TerminalModes) : StartAct → TerminalModes
  | .RawMode on => { m with raw := on }
  | .AlternateScreen on => { m with alternate := on }
  | .Draw _ | .Session _ => m

/-- The modes of the terminal after the acts. -/
def left (acts : List StartAct) : TerminalModes := acts.foldl TerminalModes.after ⟨false, false⟩

def sessions (acts : List StartAct) : List (Option String) :=
  acts.filterMap fun
    | .Session ctx => some ctx
    | _ => none

/-- The session is for the context that is selected in the frame right before it. This frame
highlights the row of the context alone, if the row is within the lines of the table, and no
row otherwise. -/
def SelectedBefore (std : StableSort) (regex : Regex) (env : StartEnv) (acts : List StartAct)
    (ctx : Option String) : Prop :=
  ∃ height landed p c, [.Draw (env.frame std regex height landed p), .Session ctx] <:+: acts ∧
    p.quit_prompt = none ∧ (env.contexts std)[p.selected]? = some c ∧ ctx = some c.name ∧
    (env.frame std regex height landed p).highlighted =
      if p.selected < table_lines height then
        [{ cells := context_cells regex env.guardrails env.current
            (if landed then some (probe env.probe_client env.answers c) else none) c
           reversed := true }]
      else []

/-- What a start may open, and how it may end without a session. -/
structure StartRun (std : StableSort) (regex : Regex) (env : StartEnv)
    (x : Traced StartAct (Option (Except String Unit))) : Prop where
  opens : sessions x.events = [] ∨ ∃ ctx, sessions x.events = [ctx] ∧
    (env.mode std = .Direct ∧ ctx = env.current ∨
      env.mode std = .Picker ∧ SelectedBefore std regex env x.events ctx)
  leaves : ∀ r, x.result = .ok (some r) → sessions x.events = [] →
    ∃ height landed p key, .Draw (env.frame std regex height landed p) ∈ x.events ∧
      (∃ tick ∈ env.ticks, tick.event = .Pressed key) ∧ Leaves key p

theorem sessions_append (acts acts' : List StartAct) :
    sessions (acts ++ acts') = sessions acts ++ sessions acts' := List.filterMap_append

theorem sessions_eq_nil {acts : List StartAct} (h : ∀ act ∈ acts, ∃ frame, act = .Draw frame) :
    sessions acts = [] := by
  rw [sessions, List.filterMap_eq_nil_iff]
  intro act hact
  obtain ⟨frame, rfl⟩ := h act hact
  rfl

theorem foldl_after_of_frames {acts : List StartAct} {m : TerminalModes}
    (h : ∀ act ∈ acts, (∃ frame, act = .Draw frame) ∨ ∃ ctx, act = .Session ctx) :
    acts.foldl TerminalModes.after m = m := by
  induction acts with
  | nil => rfl
  | cons act acts ih =>
    rw [List.forall_mem_cons] at h
    obtain ⟨h1, h2⟩ := h
    rw [List.foldl_cons]
    obtain ⟨frame, rfl⟩ | ⟨ctx, rfl⟩ := h1 <;> exact ih h2

/-- Acts around the run of a surface that are no session and no frame. -/
theorem StartRun.around {x : Traced StartAct (Option (Except String Unit))}
    (h : StartRun std regex env x) {before after : List StartAct} (hb : sessions before = [])
    (ha : sessions after = []) :
    StartRun std regex env { events := before ++ x.events ++ after, result := x.result } := by
  have hsessions : sessions (before ++ x.events ++ after) = sessions x.events := by
    rw [sessions_append, sessions_append, hb, ha, List.nil_append, List.append_nil]
  have hinfix : x.events <:+: before ++ x.events ++ after := ⟨before, after, rfl⟩
  refine ⟨?_, ?_⟩
  · rw [hsessions]
    obtain h0 | ⟨ctx, h1, hdirect | ⟨hmode, height, landed, p, c, hin, hrest⟩⟩ := h.opens
    · exact Or.inl h0
    · exact Or.inr ⟨ctx, h1, Or.inl hdirect⟩
    · exact Or.inr ⟨ctx, h1, Or.inr ⟨hmode, height, landed, p, c, hin.trans hinfix, hrest⟩⟩
  · intro r hres hnone
    rw [hsessions] at hnone
    obtain ⟨height, landed, p, key, hmem, hrest⟩ := h.leaves r hres hnone
    exact ⟨height, landed, p, key, hinfix.subset hmem, hrest⟩

/-- A start that failed before its surface. -/
theorem startRun_of_error {acts : List StartAct} (e : String) (h : sessions acts = []) :
    StartRun std regex env { events := acts, result := .error e } :=
  ⟨Or.inl h, fun r hres => by cases hres⟩

theorem session_of_client (ctx : Option String) :
    session env (.ok ()) ctx =
      { events := [.Session ctx], result := .ok (some (env.run_event_loop ctx)) } := rfl

theorem surface_runs (std : StableSort) (regex : Regex) (env : StartEnv) :
    StartRun std regex env (surface std regex env) ∧
    ∀ act ∈ (surface std regex env).events,
      (∃ frame, act = .Draw frame) ∨ ∃ ctx, act = .Session ctx := by
  unfold surface
  cases hmode : env.mode std with
  | Direct =>
    simp only
    cases hclient : env.client_again with
    | error e => exact ⟨startRun_of_error e rfl, by intro act hact; cases hact⟩
    | ok u =>
      refine ⟨⟨Or.inr ⟨env.current, rfl, Or.inl ⟨hmode, rfl⟩⟩, ?_⟩, ?_⟩
      · intro r hres hnone
        cases hnone
      · intro act hact
        rw [List.mem_singleton.mp hact]
        exact Or.inr ⟨env.current, rfl⟩
  | Picker =>
    simp only
    have hruns := @run_context_picker_runs std regex env env.ticks ⟨0, none⟩ (Nat.zero_le _)
    generalize run_context_picker std regex env env.ticks ⟨0, none⟩ = x at hruns
    have hdrawn : ∀ act ∈ x.events, ∃ frame, act = .Draw frame := by
      intro act hact
      obtain ⟨height, landed, p, rfl, -⟩ := hruns.frames act hact
      exact ⟨_, rfl⟩
    have hnone := sessions_eq_nil hdrawn
    cases hres : x.result with
    | error e =>
      rw [Traced.bind_error hres]
      exact ⟨startRun_of_error e hnone, fun act hact => Or.inl (hdrawn act hact)⟩
    | ok picked =>
      rw [Traced.bind_ok hres]
      cases picked with
      | Waits =>
        refine ⟨⟨Or.inl ?_, ?_⟩, ?_⟩
        · exact (sessions_append _ _).trans (by rw [hnone]; rfl)
        · intro r hr
          cases hr
        · intro act hact
          exact Or.inl (hdrawn act (by simpa using hact))
      | Returned ctx =>
        cases ctx with
        | none =>
          obtain ⟨before, height, landed, p, key, hev, htick, hleaves⟩ := hruns.leaves hres
          refine ⟨⟨Or.inl ?_, ?_⟩, ?_⟩
          · exact (sessions_append _ _).trans (by rw [hnone]; rfl)
          · intro r hr hnil
            refine ⟨height, landed, p, key, ?_, htick, hleaves⟩
            simp [hev]
          · intro act hact
            exact Or.inl (hdrawn act (by simpa using hact))
        | some ctx =>
          obtain ⟨before, height, landed, p, c, hev, hprompt, hc, rfl⟩ := hruns.picks ctx hres
          simp only
          cases hclient : env.client_for_context c.name with
          | error e =>
            refine ⟨startRun_of_error e ?_, ?_⟩
            · exact (sessions_append _ _).trans (by rw [hnone]; rfl)
            · intro act hact
              exact Or.inl (hdrawn act (by simpa [session] using hact))
          | ok u =>
            have hopened : sessions (x.events ++ [.Session (some c.name)]) = [some c.name] := by
              rw [sessions_append, hnone]
              rfl
            rw [session_of_client]
            refine ⟨⟨Or.inr ⟨some c.name, hopened, Or.inr ⟨hmode, height, landed, p, c, ?_, hprompt,
              hc, rfl, highlighted_frame hc height landed⟩⟩, ?_⟩, ?_⟩
            · exact ⟨before, [], by simp [hev]⟩
            · intro r hr hnil
              exact absurd (hopened.symm.trans hnil) (by simp)
            · intro act hact
              rcases List.mem_append.mp hact with hact | hact
              · exact Or.inl (hdrawn act hact)
              · rw [List.mem_singleton.mp hact]
                exact Or.inr ⟨some c.name, rfl⟩

/-- The acts that restore the terminal, where the surface came to an answer. -/
def restored (env : StartEnv) : Except String (Option (Except String Unit)) → List StartAct
  | .ok (some _) =>
    (if env.disable_raw_mode.isOk then [.RawMode false] else []) ++
      if env.leave_alternate_screen.isOk then [.AlternateScreen false] else []
  | _ => []

theorem sessions_restored (r : Except String (Option (Except String Unit))) :
    sessions (restored env r) = [] := by
  unfold restored
  split
  · rw [sessions_append]
    split <;> split <;> rfl
  · rfl

theorem bind_restore (x : Traced StartAct (Option (Except String Unit))) :
    (x >>= restore env) = { events := x.events ++ restored env x.result, result := x.result } := by
  cases hx : x.result with
  | error e =>
    rw [Traced.bind_error hx, restored, List.append_nil]
    intro r h
    cases h
  | ok result =>
    rw [Traced.bind_ok hx]
    cases result with
    | none => rfl
    | some answer =>
      unfold restore restored
      cases env.disable_raw_mode <;> cases env.leave_alternate_screen <;> rfl

/-- A start where the set-up of the terminal went well. -/
theorem run_of_set_up (h1 : env.enable_raw_mode = .ok ()) (h2 : env.enter_alternate_screen = .ok ())
    (h3 : env.terminal_new = .ok ()) :
    run std regex env =
      { events := [.RawMode true, .AlternateScreen true] ++ (surface std regex env).events ++
          restored env (surface std regex env).result
        result := (surface std regex env).result } := by
  have hbind := @bind_restore env (surface std regex env)
  unfold run
  rw [h1, h2, h3, Traced.lift_ok_bind, Traced.bind_ok (Traced.emit_result _), Traced.lift_ok_bind,
    Traced.bind_ok (Traced.emit_result _), Traced.lift_ok_bind, hbind]
  rfl

/-- Any start. It opens one session at most: that of the current context where the default
answers, or that of the context which is selected in the frame right before it. This frame
highlights the row of the context, with its own class and answer, if the row fits. It ends well
without a session for Ctrl-C or a quit command alone. Where the chosen surface came to an answer
the terminal is left in the very modes that could not be left, and an error before that leaves
it in the modes it was put in. -/
theorem the_session_is_the_selected_one (std : StableSort) (regex : Regex) (env : StartEnv) :
    StartRun std regex env (run std regex env) ∧
    left (run std regex env).events =
      match (run std regex env).result with
      | .ok (some _) => ⟨!env.disable_raw_mode.isOk, !env.leave_alternate_screen.isOk⟩
      | _ => ⟨env.enable_raw_mode.isOk,
          env.enable_raw_mode.isOk && env.enter_alternate_screen.isOk⟩ := by
  cases h1 : env.enable_raw_mode with
  | error e =>
    have hrun : run std regex env = { events := [], result := .error e } := by
      unfold run
      rw [h1]
      rfl
    rw [hrun]
    exact ⟨startRun_of_error e rfl, rfl⟩
  | ok u =>
    cases h2 : env.enter_alternate_screen with
    | error e =>
      have hrun : run std regex env = { events := [.RawMode true], result := .error e } := by
        unfold run
        rw [h1, h2]
        rfl
      rw [hrun]
      exact ⟨startRun_of_error e rfl, rfl⟩
    | ok u =>
      cases h3 : env.terminal_new with
      | error e =>
        have hrun : run std regex env =
            { events := [.RawMode true, .AlternateScreen true], result := .error e } := by
          unfold run
          rw [h1, h2, h3]
          rfl
        rw [hrun]
        exact ⟨startRun_of_error e rfl, rfl⟩
      | ok u =>
        obtain ⟨hstart, hframes⟩ := surface_runs std regex env
        rw [run_of_set_up h1 h2 h3]
        refine ⟨hstart.around rfl (sessions_restored _), ?_⟩
        simp only [left, List.foldl_append]
        rw [foldl_after_of_frames hframes]
        cases hres : (surface std regex env).result with
        | error e => rfl
        | ok result =>
          cases result with
          | none => rfl
          | some answer =>
            unfold restored
            cases env.disable_raw_mode <;> cases env.leave_alternate_screen <;> rfl

end Runs

end kaptein_tui
