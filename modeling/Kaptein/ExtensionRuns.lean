-- The commands `extension enable` and `extension disable`, any number of them over one
-- config file, and the lenses that a session then offers.
import Kaptein.Config
import Kaptein.KindCycle

open rust_slice kaptein_core.extension

namespace kaptein_core.config

inductive ExtensionCommand where
  | Enable (id : String)
  | Disable (id : String)
  deriving DecidableEq

def ExtensionCommand.id : ExtensionCommand → String
  | .Enable id | .Disable id => id

def ExtensionCommand.enables : ExtensionCommand → Bool
  | .Enable _ => true
  | .Disable _ => false

/-- What the command does to the config. -/
def ExtensionCommand.change : ExtensionCommand → Config → Config
  | .Enable id => enable id
  | .Disable id => disable id

/-- A write that is refused, of a file that cannot be opened, leaves it as it was. -/
def disk_of (fault : Option String) (file : File) : Disk :=
  match fault with
  | none => .Writes
  | some error => .Fails error file

/-- The commands one after the other, each with the fault of its write. Which of them were
answered without an error, and the file that they leave. -/
def run_commands (toml : Toml) (path : String) (file : File) :
    List (ExtensionCommand × Option String) → List (ExtensionCommand × Bool) × File
  | [] => ([], file)
  | (command, fault) :: commands =>
    let (answer, file) := update_config toml path command.change (disk_of fault file) file
    let (answers, file) := run_commands toml path file commands
    ((command, answer.isOk) :: answers, file)

/-- Of the commands that name an extension, the last one that was answered without an error
decides whether it is enabled. -/
def last_word (enabled : String → Bool) (answers : List (ExtensionCommand × Bool)) :
    String → Bool :=
  answers.foldl (fun enabled answer =>
    if answer.2 then Function.update enabled answer.1.id answer.1.enables else enabled) enabled

/-! ## One command -/

theorem onlyExtensions_change (command : ExtensionCommand) : OnlyExtensions command.change := by
  cases command with
  | Enable id => exact onlyExtensions_enable id
  | Disable id => exact onlyExtensions_disable id

theorem is_enabled_change (command : ExtensionCommand) (config : Config) :
    (command.change config).extensions.is_enabled =
      Function.update config.extensions.is_enabled command.id command.enables := by
  funext other
  rw [Bool.eq_iff_iff]
  cases command with
  | Enable id =>
    refine (is_enabled_enable id other config).trans ?_
    by_cases h : other = id
    · subst h
      simp [ExtensionCommand.id, ExtensionCommand.enables]
    · simp [ExtensionCommand.id, h]
  | Disable id =>
    refine (is_enabled_disable id other config).trans ?_
    by_cases h : other = id
    · subst h
      simp [ExtensionCommand.id, ExtensionCommand.enables]
    · simp [ExtensionCommand.id, h]

theorem nodup_change (command : ExtensionCommand) {config : Config}
    (h : config.extensions.disabled.Nodup) :
    (command.change config).extensions.disabled.Nodup := by
  cases command with
  | Enable id => exact h.filter _
  | Disable id =>
    show (disable id config).extensions.disabled.Nodup
    unfold disable
    split
    · rename_i hnew
      have hother : ∀ other ∈ config.extensions.disabled, other ≠ id := by simpa using hnew
      rw [List.nodup_append]
      refine ⟨h, List.nodup_singleton id, ?_⟩
      intro other hmem new hnew
      rw [List.mem_singleton.mp hnew]
      exact hother other hmem
    · exact h

/-- After a command the file declares what it declared before, changed if the answer is no
error. -/
theorem declared_after_command {toml : Toml} (path : String) {file : File} {old : Config}
    (hold : file.declared toml = some old) (command : ExtensionCommand) (fault : Option String) :
    let after := update_config toml path command.change (disk_of fault file) file
    after.2.declared toml = some (if after.1.isOk then command.change old else old) := by
  intro after
  rcases update_config_cases toml path command.change (disk_of fault file) file with
    ⟨e, -, he⟩ | ⟨text, -, -, h⟩ | ⟨e, left, hdisk, he⟩
  · have hafter : after = (.error s!"serialize config: {e}", file) := he
    rw [hafter]
    exact hold
  · have hafter : after = (.ok (), .Present text.toByteArray file.readable) := h
    have hparsed := parsed_after_update hold (congrArg Prod.fst h)
    rw [hafter]
    rw [h] at hparsed
    exact declared_of_parsed hparsed
  · have hafter : after = (.error s!"write {path}: {e}", left) := he
    cases fault with
    | none => cases hdisk
    | some error =>
      cases hdisk
      rw [hafter]
      exact hold

/-! ## Any number of commands -/

/-- A file from which the next command starts: it declares a config in which no id is disabled
twice. -/
structure Declares (toml : Toml) (file : File) (config : Config) : Prop where
  declared : file.declared toml = some config
  nodup : config.extensions.disabled.Nodup

theorem run_commands_declares {toml : Toml} (path : String)
    (commands : List (ExtensionCommand × Option String)) {file : File} {old : Config}
    (h : Declares toml file old) :
    ∃ new, Declares toml (run_commands toml path file commands).2 new ∧
      new.guardrails = old.guardrails ∧ new.informer = old.informer ∧
      new.extensions.is_enabled = last_word old.extensions.is_enabled
        (run_commands toml path file commands).1 := by
  induction commands generalizing file old with
  | nil => exact ⟨old, h, rfl, rfl, rfl⟩
  | cons step commands ih =>
    obtain ⟨command, fault⟩ := step
    have hstep := declared_after_command path h.declared command fault
    have hrun : run_commands toml path file ((command, fault) :: commands) =
        let after := update_config toml path command.change (disk_of fault file) file
        ((command, after.1.isOk) :: (run_commands toml path after.2 commands).1,
          (run_commands toml path after.2 commands).2) := rfl
    rw [hrun]
    generalize update_config toml path command.change (disk_of fault file) file = after at hstep ⊢
    simp only at hstep ⊢
    cases hok : after.1.isOk with
    | true =>
      rw [hok, if_pos rfl] at hstep
      obtain ⟨new, hnew, hguard, hinf, henabled⟩ := ih ⟨hstep, nodup_change command h.nodup⟩
      obtain ⟨hguard', hinf'⟩ := onlyExtensions_change command old
      refine ⟨new, hnew, hguard.trans hguard', hinf.trans hinf', ?_⟩
      rw [henabled, is_enabled_change]
      rfl
    | false =>
      rw [hok, if_neg Bool.false_ne_true] at hstep
      exact ih ⟨hstep, h.nodup⟩

/-- Any run of the commands, from a file that declares a config, where any of the writes may be
refused. The file declares a config after it: its guardrails and its informer settings
are the old ones, an extension is enabled as the last command for it says that was answered
without an error, and the lenses that the next session offers are those. -/
theorem the_last_command_decides (toml : Toml) (path : String)
    (commands : List (ExtensionCommand × Option String)) {file : File} {old : Config}
    (hold : file.declared toml = some old) (hnodup : old.extensions.disabled.Nodup) :
    let run := run_commands toml path file commands
    let enabled := last_word old.extensions.is_enabled run.1
    ∃ new, run.2.declared toml = some new ∧ load_from toml run.2 = new ∧
      new.guardrails = old.guardrails ∧ new.informer = old.informer ∧
      new.extensions.disabled.Nodup ∧ (∀ id, new.extensions.is_enabled id = enabled id) ∧
      ∀ std sys dir, kaptein_tui.enabled_lenses std sys dir new =
        (discover_lenses sys std (dir.getD "extensions")).1.filter fun lens => enabled lens.id := by
  intro run enabled
  obtain ⟨new, hnew, hguard, hinf, henabled⟩ :=
    run_commands_declares path commands ⟨hold, hnodup⟩
  refine ⟨new, hnew.declared, load_from_of_declared hnew.declared, hguard, hinf, hnew.nodup,
    fun id => congrFun henabled id, ?_⟩
  intro std sys dir
  rw [kaptein_tui.enabled_lenses, henabled]

/-- A lens is disabled, and the file is read-only when it is enabled again. -/
theorem a_refused_command_says_nothing :
    let run := run_commands sample_toml "config.toml"
      (.Present guarded_text.toByteArray true)
      [(.Enable "com.example.b", none), (.Enable "com.example.a", some "Permission denied")]
    ∃ new, run.2.declared sample_toml = some new ∧
      new.guardrails = guarded_config.guardrails ∧
      new.extensions.is_enabled "com.example.a" =
        last_word guarded_config.extensions.is_enabled run.1 "com.example.a" := by
  have hold : (File.Present guarded_text.toByteArray true).declared sample_toml =
      some guarded_config := sample_parsed guarded_text
  obtain ⟨new, hnew, -, hguard, -, -, henabled, -⟩ :=
    the_last_command_decides sample_toml "config.toml"
      [(.Enable "com.example.b", none), (.Enable "com.example.a", some "Permission denied")]
      hold (by decide)
  exact ⟨new, hnew, hguard, henabled "com.example.a"⟩

end kaptein_core.config
