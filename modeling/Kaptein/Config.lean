-- The config file (`config.rs`): how it is read, what the one call that writes
-- it does to the sections it does not mean to touch, and what a check of it
-- reports. The TOML library stands behind its two functions.
import Kaptein.Guardrails
import Mathlib.Logic.Equiv.List

open kaptein_core.guardrails

namespace kaptein_core.config

/-! ## The schema -/

structure InformerConfig where
  max_watches : Nat
  idle_ttl_secs : Nat
  deriving DecidableEq

def default_max_watches : Nat := 16

def default_idle_ttl_secs : Nat := 300

def InformerConfig.default : InformerConfig where
  max_watches := default_max_watches
  idle_ttl_secs := default_idle_ttl_secs

/-- The ids of the disabled extensions. -/
structure Extensions where
  disabled : List String
  deriving DecidableEq

def Extensions.is_enabled (e : Extensions) (id : String) : Bool := !e.disabled.any fun d => d == id

structure Config where
  guardrails : Guardrails
  extensions : Extensions
  informer : InformerConfig
  deriving DecidableEq

def Config.default : Config where
  guardrails := { prod := [], staging := [] }
  extensions := { disabled := [] }
  informer := InformerConfig.default

/-! ## The file -/

/-- The file at the config path. -/
inductive File where
  | Absent
  | Present (bytes : ByteArray) (readable : Bool)

/-- `fs::read_to_string`: a file that is there, may be read and is UTF-8. -/
def read_to_string : File → Option String
  | .Absent => none
  | .Present bytes readable => if readable then String.fromUTF8? bytes else none

/-- What comes of the one write of a call: it goes through, or it fails and leaves
some file. -/
inductive Disk where
  | Writes
  | Fails (error : String) (left : File)

def File.readable : File → Bool
  | .Absent => true
  | .Present _ readable => readable

/-- `fs::write`. -/
def Disk.write (disk : Disk) (file : File) (text : String) : Except String Unit × File :=
  match disk with
  | .Writes => (.ok (), .Present text.toByteArray file.readable)
  | .Fails error left => (.error error, left)

/-- The TOML library at the type of the config. An integer of TOML has 64 bits and
a sign, so a config within that writes. -/
structure Toml where
  from_str : String → Except String Config
  to_string_pretty : Config → Except String String
  reads_back : ∀ config text, to_string_pretty config = .ok text → from_str text = .ok config
  writes : ∀ config, config.informer.max_watches < 2 ^ 63 → config.informer.idle_ttl_secs < 2 ^ 63 →
    ∃ text, to_string_pretty config = .ok text

section

variable (toml : Toml)

/-- No file and a file that does not parse both read as the default config. -/
def load_from (file : File) : Config :=
  match read_to_string file with
  | none => Config.default
  | some text =>
    match toml.from_str text with
    | .ok config => config
    | .error _ => Config.default

def update_config (path : String) (f : Config → Config) (disk : Disk) (file : File) :
    Except String Unit × File :=
  let config := f (load_from toml file)
  match toml.to_string_pretty config with
  | .error e => (.error s!"serialize config: {e}", file)
  | .ok text =>
    match disk.write file text with
    | (.ok (), file) => (.ok (), file)
    | (.error e, file) => (.error s!"write {path}: {e}", file)

/-- `extension enable`. -/
def enable (id : String) (config : Config) : Config :=
  { config with extensions := { disabled := config.extensions.disabled.filter (· ≠ id) } }

/-- `extension disable`. -/
def disable (id : String) (config : Config) : Config :=
  if !config.extensions.disabled.any fun d => d == id then
    { config with extensions := { disabled := config.extensions.disabled ++ [id] } }
  else config

/-! ## The check of a config -/

def problems_of (regex : Regex) (which : String) (patterns : List String) : List String :=
  (patterns.filter fun pat => (regex pat).isNone).map fun pat =>
    s!"guardrails.{which}: invalid regex '{pat}'"

def validate (regex : Regex) (config : Config) : List String :=
  problems_of regex "prod" config.guardrails.prod ++
    problems_of regex "staging" config.guardrails.staging ++
    (if config.informer.max_watches = 0 then ["informer.max_watches: must be >= 1"] else []) ++
    (if config.informer.idle_ttl_secs = 0 then ["informer.idle_ttl_secs: must be >= 1"] else [])

/-- The problems of the config file. A file that cannot be read counts as absent. -/
def validate_file (regex : Regex) (file : File) : Except (List String) Unit :=
  match read_to_string file with
  | none => .ok ()
  | some text =>
    match toml.from_str text with
    | .error e => .error [s!"parse error: {e}"]
    | .ok config =>
      let problems := validate regex config
      if problems = [] then .ok () else .error problems

end

/-! ## What a file declares -/

variable {toml : Toml}

/-- The config in a file, or `none` where there is no file or it does not parse. -/
def File.parsed (toml : Toml) (file : File) : Option Config :=
  (read_to_string file).bind fun text => (toml.from_str text).toOption

/-- A missing file declares the defaults. -/
def File.declared (toml : Toml) (file : File) : Option Config :=
  match file with
  | .Absent => some Config.default
  | .Present .. => file.parsed toml

theorem load_from_eq (file : File) :
    load_from toml file = (file.parsed toml).getD Config.default := by
  unfold load_from File.parsed
  cases read_to_string file with
  | none => rfl
  | some text =>
    simp only [Option.bind_some]
    cases toml.from_str text <;> rfl

theorem load_from_of_declared {file : File} {old : Config} (h : file.declared toml = some old) :
    load_from toml file = old := by
  rw [load_from_eq]
  cases file with
  | Absent =>
    cases h
    rfl
  | Present bytes readable =>
    change File.parsed toml _ = some old at h
    rw [h]
    rfl

@[simp] theorem fromUTF8_toByteArray (text : String) :
    String.fromUTF8? text.toByteArray = some text := by
  unfold String.fromUTF8?
  rw [dif_pos text.isValidUTF8]
  rfl

/-- A file with a text on disk says what the text says. -/
theorem parsed_of_text (toml : Toml) (text : String) :
    (File.Present text.toByteArray true).parsed toml = (toml.from_str text).toOption := by
  simp [File.parsed, read_to_string]

theorem declared_of_parsed {file : File} {old : Config} (h : file.parsed toml = some old) :
    file.declared toml = some old := by
  cases file with
  | Absent => cases h
  | Present bytes readable => exact h

/-- A file that parses may be read. -/
theorem readable_of_declared {file : File} {old : Config} (h : file.declared toml = some old) :
    file.readable = true := by
  cases file with
  | Absent => rfl
  | Present bytes readable =>
    cases readable with
    | true => rfl
    | false => simp [File.declared, File.parsed, read_to_string] at h

/-! ## What one update does -/

/-- The mutation leaves the other two sections as they are. -/
def OnlyExtensions (f : Config → Config) : Prop :=
  ∀ config, (f config).guardrails = config.guardrails ∧ (f config).informer = config.informer

theorem onlyExtensions_enable (id : String) : OnlyExtensions (enable id) :=
  fun _ => ⟨rfl, rfl⟩

theorem onlyExtensions_disable (id : String) : OnlyExtensions (disable id) := by
  intro config
  unfold disable
  split <;> exact ⟨rfl, rfl⟩

theorem is_enabled_iff (e : Extensions) (id : String) :
    e.is_enabled id = true ↔ id ∉ e.disabled := by
  unfold Extensions.is_enabled
  rw [Bool.not_eq_true', ← Bool.not_eq_true, List.any_beq']
  simp

/-- `enable` adds its extension to the enabled ones and changes no other. -/
theorem is_enabled_enable (id other : String) (config : Config) :
    (enable id config).extensions.is_enabled other = true ↔
      config.extensions.is_enabled other = true ∨ other = id := by
  simp only [is_enabled_iff, enable, List.mem_filter, decide_eq_true_eq]
  tauto

/-- `disable` takes its extension from the enabled ones and changes no other. -/
theorem is_enabled_disable (id other : String) (config : Config) :
    (disable id config).extensions.is_enabled other = true ↔
      config.extensions.is_enabled other = true ∧ other ≠ id := by
  unfold disable
  split
  · simp [is_enabled_iff]
  · rename_i h
    have hid : id ∈ config.extensions.disabled := by simpa using h
    simp only [is_enabled_iff]
    constructor
    · intro hother
      exact ⟨hother, fun heq => hother (heq ▸ hid)⟩
    · exact And.left

/-- Everything an update can do. -/
theorem update_config_cases (toml : Toml) (path : String) (f : Config → Config) (disk : Disk)
    (file : File) :
    (∃ e, toml.to_string_pretty (f (load_from toml file)) = .error e ∧
      update_config toml path f disk file = (.error s!"serialize config: {e}", file)) ∨
    (∃ text, toml.to_string_pretty (f (load_from toml file)) = .ok text ∧ disk = .Writes ∧
      update_config toml path f disk file =
        (.ok (), .Present text.toByteArray file.readable)) ∨
    (∃ e left, disk = .Fails e left ∧
      update_config toml path f disk file = (.error s!"write {path}: {e}", left)) := by
  unfold update_config
  cases htext : toml.to_string_pretty (f (load_from toml file)) with
  | error e => exact Or.inl ⟨e, rfl, by simp [htext]⟩
  | ok text =>
    cases disk with
    | Writes => exact Or.inr (Or.inl ⟨text, rfl, rfl, by simp [htext, Disk.write]⟩)
    | Fails e left => exact Or.inr (Or.inr ⟨e, left, rfl, by simp [htext, Disk.write]⟩)

/-- The defaults are within what TOML writes. -/
theorem writes_default (toml : Toml) {f : Config → Config} (hf : OnlyExtensions f) :
    ∃ text, toml.to_string_pretty (f Config.default) = .ok text := by
  apply toml.writes
  · rw [(hf Config.default).2]
    decide
  · rw [(hf Config.default).2]
    decide

/-- An update that is saved keeps what the old file declares outside of the
extensions, and a file that is there but does not parse stays as it is. -/
structure KeepsSettings (toml : Toml) (path : String) (f : Config → Config) (disk : Disk)
    (file : File) : Prop where
  saved : ∀ old, file.declared toml = some old →
    (update_config toml path f disk file).1 = .ok () →
    ∃ new, (update_config toml path f disk file).2.parsed toml = some new ∧
      new.guardrails = old.guardrails ∧ new.informer = old.informer ∧
      new.extensions = (f old).extensions
  refused : file.declared toml = none →
    (∃ e, (update_config toml path f disk file).1 = .error e) ∧
      (update_config toml path f disk file).2 = file

/-- The file an update saves is the mutated config. -/
theorem parsed_after_update {path : String} {f : Config → Config} {disk : Disk} {file : File}
    {old : Config} (hold : file.declared toml = some old)
    (hok : (update_config toml path f disk file).1 = .ok ()) :
    (update_config toml path f disk file).2.parsed toml = some (f old) := by
  rcases update_config_cases toml path f disk file with
    ⟨e, -, he⟩ | ⟨text, htext, -, h⟩ | ⟨e, left, -, he⟩
  · rw [he] at hok
    cases hok
  · rw [h, readable_of_declared hold, parsed_of_text]
    rw [load_from_of_declared hold] at htext
    rw [toml.reads_back _ _ htext]
    rfl
  · rw [he] at hok
    cases hok

/-- A file that declares a config keeps it. -/
theorem keepsSettings_of_declared {path : String} {f : Config → Config} {disk : Disk} {file : File}
    {old : Config} (hf : OnlyExtensions f) (hold : file.declared toml = some old) :
    KeepsSettings toml path f disk file where
  saved := by
    intro old' hold' hok
    exact ⟨f old', parsed_after_update hold' hok, (hf old').1, (hf old').2, rfl⟩
  refused := by
    intro hnone
    rw [hold] at hnone
    cases hnone

/-- An update keeps the settings exactly where no file is there, where the file
parses, or where the write fails and leaves the file. -/
theorem update_config_keeps_settings_iff (toml : Toml) (path : String) (f : Config → Config)
    (disk : Disk) (file : File) (hf : OnlyExtensions f) :
    KeepsSettings toml path f disk file ↔
      file = .Absent ∨ (file.parsed toml).isSome ∨ ∃ e, disk = .Fails e file := by
  constructor
  · intro h
    cases file with
    | Absent => exact Or.inl rfl
    | Present bytes readable =>
      right
      cases hp : File.parsed toml (.Present bytes readable) with
      | some old => exact Or.inl rfl
      | none =>
        obtain ⟨⟨e, herr⟩, hleft⟩ := h.refused hp
        rcases update_config_cases toml path f disk (.Present bytes readable) with
          ⟨d, hd, -⟩ | ⟨text, -, -, hd⟩ | ⟨d, left, hdisk, hd⟩
        · -- the config that stands in for the bad file writes
          rw [load_from_eq, hp] at hd
          obtain ⟨text, htext⟩ := writes_default toml hf
          change toml.to_string_pretty (f Config.default) = _ at hd
          rw [htext] at hd
          cases hd
        · rw [hd] at herr
          cases herr
        · rw [hd] at hleft
          change left = _ at hleft
          exact Or.inr ⟨d, by rw [hdisk, hleft]⟩
  · intro h
    cases hold : file.declared toml with
    | some old => exact keepsSettings_of_declared hf hold
    | none =>
      have hsaved : ∀ old, file.declared toml ≠ some old := by
        intro old h
        rw [hold] at h
        cases h
      refine ⟨fun old h => absurd h (hsaved old), fun _ => ?_⟩
      rcases h with rfl | hsome | ⟨e, rfl⟩
      · cases hold
      · rw [Option.isSome_iff_exists] at hsome
        obtain ⟨old, hparsed⟩ := hsome
        rw [declared_of_parsed hparsed] at hold
        cases hold
      · rcases update_config_cases toml path f (.Fails e file) file with
          ⟨d, -, hd⟩ | ⟨text, -, hdisk, -⟩ | ⟨d, left, hdisk, hd⟩
        · exact ⟨⟨_, congrArg Prod.fst hd⟩, congrArg Prod.snd hd⟩
        · cases hdisk
        · cases hdisk
          exact ⟨⟨_, congrArg Prod.fst hd⟩, congrArg Prod.snd hd⟩

/-! ## What a check promises -/

theorem problems_of_eq_nil_iff (regex : Regex) (which : String) (patterns : List String) :
    problems_of regex which patterns = [] ↔ ∀ pat ∈ patterns, (regex pat).isSome := by
  simp [problems_of, Option.isSome_iff_ne_none]

/-- A config with no problems has only patterns that compile, and lets informers
live at all. -/
theorem validate_eq_nil_iff (regex : Regex) (config : Config) :
    validate regex config = [] ↔
      (∀ pat ∈ config.guardrails.prod ++ config.guardrails.staging, (regex pat).isSome) ∧
        config.informer.max_watches ≠ 0 ∧ config.informer.idle_ttl_secs ≠ 0 := by
  unfold validate
  simp only [List.append_eq_nil_iff, problems_of_eq_nil_iff, List.mem_append]
  constructor
  · rintro ⟨⟨⟨hprod, hstaging⟩, hmax⟩, hidle⟩
    refine ⟨?_, ?_, ?_⟩
    · rintro pat (hp | hp)
      · exact hprod pat hp
      · exact hstaging pat hp
    · intro h
      simp [h] at hmax
    · intro h
      simp [h] at hidle
  · rintro ⟨hpat, hmax, hidle⟩
    refine ⟨⟨⟨?_, ?_⟩, if_neg hmax⟩, if_neg hidle⟩
    · intro pat hp
      exact hpat pat (Or.inl hp)
    · intro pat hp
      exact hpat pat (Or.inr hp)

/-- A file that passes the check and can be read as text is one that no update
loses. -/
theorem keepsSettings_of_validate_file {regex : Regex} {path : String} {f : Config → Config}
    {disk : Disk} {file : File} {text : String} (hf : OnlyExtensions f)
    (hread : read_to_string file = some text) (h : validate_file toml regex file = .ok ()) :
    KeepsSettings toml path f disk file := by
  cases hc : toml.from_str text with
  | ok config =>
    have hparsed : file.parsed toml = some config := by
      unfold File.parsed
      rw [hread, Option.bind_some, hc]
      rfl
    exact keepsSettings_of_declared hf (declared_of_parsed hparsed)
  | error e =>
    unfold validate_file at h
    simp only [hread, hc] at h
    cases h

/-! ## A library for the examples

It writes three configs as the real one does, and every other one as a row of
dashes whose length is its code. -/

def codes (ss : List String) : List (List Nat) := ss.map fun s => s.toList.map Char.toNat

def of_codes (cs : List (List Nat)) : List String :=
  cs.map fun c => String.ofList (c.map Char.ofNat)

theorem of_codes_codes (ss : List String) : of_codes (codes ss) = ss := by
  simp [codes, of_codes, Function.comp_def]

instance : Encodable Config :=
  Encodable.ofLeftInverse
    (fun c : Config =>
      (codes c.guardrails.prod, codes c.guardrails.staging, codes c.extensions.disabled,
        c.informer.max_watches, c.informer.idle_ttl_secs))
    (fun x => ⟨⟨of_codes x.1, of_codes x.2.1⟩, ⟨of_codes x.2.2.1⟩, ⟨x.2.2.2.1, x.2.2.2.2⟩⟩)
    (fun c => by simp only [of_codes_codes])

def guarded_config : Config where
  guardrails := { prod := ["^prod-"], staging := [] }
  extensions := { disabled := ["com.example.a"] }
  informer := InformerConfig.default

def enabled_config : Config where
  guardrails := { prod := ["^prod-"], staging := [] }
  extensions := { disabled := [] }
  informer := InformerConfig.default

/-- The defaults, with one extension disabled. -/
def unguarded_config : Config where
  guardrails := { prod := [], staging := [] }
  extensions := { disabled := ["com.example.a"] }
  informer := InformerConfig.default

/-- How the real library writes a config with these two arrays. -/
def sample_text (prod disabled : String) : String :=
  "[guardrails]\nprod = [" ++ prod ++ "]\nstaging = []\n\n" ++
    "[extensions]\ndisabled = [" ++ disabled ++ "]\n\n" ++
    "[informer]\nmax_watches = 16\nidle_ttl_secs = 300\n"

def guarded_text : String := sample_text "\"^prod-\"" "\"com.example.a\""

def enabled_text : String := sample_text "\"^prod-\"" ""

def unguarded_text : String := sample_text "" "\"com.example.a\""

def sample_texts : List (Config × String) :=
  [(guarded_config, guarded_text), (enabled_config, enabled_text),
   (unguarded_config, unguarded_text)]

def dashes (config : Config) : String :=
  String.ofList (List.replicate (Encodable.encode config) '-')

def sample_from_str (text : String) : Except String Config :=
  match sample_texts.find? fun e => e.2 == text with
  | some e => .ok e.1
  | none =>
    if text.toList.all (· == '-') then
      match (Encodable.decode text.length : Option Config) with
      | some config => .ok config
      | none => .error "expected a key"
    else .error "expected `]`"

def sample_to_string_pretty (config : Config) : String :=
  match sample_texts.find? fun e => e.1 == config with
  | some e => e.2
  | none => dashes config

theorem sample_from_dashes (config : Config) : sample_from_str (dashes config) = .ok config := by
  have hnone : sample_texts.find? (fun e => e.2 == dashes config) = none := by
    rw [List.find?_eq_none]
    intro e he heq
    have hdash : e.2.toList.all (· == '-') = true := by
      rw [eq_of_beq heq]
      simp [dashes]
    have hno : sample_texts.all (fun e => !e.2.toList.all (· == '-')) = true := by
      decide +kernel
    have := List.all_eq_true.mp hno e he
    simp [hdash] at this
  unfold sample_from_str
  rw [hnone]
  simp [dashes]

theorem sample_reads_back (config : Config) :
    sample_from_str (sample_to_string_pretty config) = .ok config := by
  unfold sample_to_string_pretty
  cases hfind : sample_texts.find? fun e => e.1 == config with
  | none => exact sample_from_dashes config
  | some e =>
    have he : e.1 = config := by simpa using List.find?_some hfind
    have hmem := List.mem_of_find?_eq_some hfind
    have hall : sample_texts.all (fun e => sample_from_str e.2 = .ok e.1) = true := by
      decide +kernel
    rw [← he]
    simpa using List.all_eq_true.mp hall e hmem

def sample_toml : Toml where
  from_str := sample_from_str
  to_string_pretty config := .ok (sample_to_string_pretty config)
  reads_back config text h := by
    cases h
    exact sample_reads_back config
  writes config _ _ := ⟨_, rfl⟩

theorem sample_parsed (text : String) :
    (File.Present text.toByteArray true).parsed sample_toml = (sample_from_str text).toOption :=
  parsed_of_text sample_toml text

/-- An update of a file that parses. -/
theorem an_update_keeps_the_guardrails :
    KeepsSettings sample_toml "config.toml" (enable "com.example.a") .Writes
      (.Present guarded_text.toByteArray true) := by
  rw [update_config_keeps_settings_iff _ _ _ _ _ (onlyExtensions_enable _), sample_parsed]
  exact Or.inr (Or.inl (by decide +kernel))

/-- A section header with no closing bracket: the next `extension disable` says that
all went well, and no guardrail is left in the file. -/
theorem an_update_loses_the_guardrails :
    let file := File.Present "[guardrails\nprod = [\"^prod-\"]\n".toByteArray true
    let after := update_config sample_toml "config.toml" (disable "com.example.a") .Writes file
    file.parsed sample_toml = none ∧
      after = (.ok (), .Present unguarded_text.toByteArray true) ∧
      after.2.parsed sample_toml = some unguarded_config ∧
      unguarded_config.guardrails = { prod := [], staging := [] } ∧
      ¬ KeepsSettings sample_toml "config.toml" (disable "com.example.a") .Writes file := by
  intro file after
  have hnone : file.parsed sample_toml = none := by
    rw [sample_parsed]
    decide +kernel
  have hload : load_from sample_toml file = Config.default := by
    rw [load_from_eq, hnone]
    rfl
  have htext : sample_to_string_pretty (disable "com.example.a" Config.default) =
      unguarded_text := by decide +kernel
  have hafter : after = (.ok (), .Present unguarded_text.toByteArray true) := by
    change update_config _ _ _ _ _ = _
    unfold update_config
    rw [hload, ← htext]
    rfl
  refine ⟨hnone, hafter, ?_, rfl, ?_⟩
  · rw [hafter, sample_parsed]
    decide +kernel
  · intro h
    obtain ⟨⟨e, he⟩, -⟩ := h.refused hnone
    change after.1 = _ at he
    rw [hafter] at he
    cases he

end kaptein_core.config
