-- The extensions (`extension.rs`). A tree of directories is walked for manifests, and
-- the manifests of the lenses lead to the files that hold the view definitions.
import Kaptein.Lib.Serde
import Kaptein.Lib.StableSort
import Kaptein.Lib.Text
import Kaptein.Object

open serde_json serde rust_str rust_slice

namespace kaptein_core.extension

/-! ## The manifest -/

def MANIFEST_SCHEMA_VERSION : Nat := 1

inductive ExtensionKind where
  | Lens
  | Plugin
  | Integration
  deriving DecidableEq

structure ExtensionManifest where
  id : String
  name : String
  version : String
  api_version : Nat
  kind : ExtensionKind
  entrypoint : String
  permissions : List String
  deriving DecidableEq

def EXTENSION_KINDS : List (String × ExtensionKind) :=
  [("lens", .Lens), ("plugin", .Plugin), ("integration", .Integration)]

def ExtensionManifest.FIELDS : List String :=
  ["id", "name", "version", "api_version", "kind", "entrypoint", "permissions"]

/-- Only `permissions` has a default. -/
def ExtensionManifest.deserialize : Value → Option ExtensionManifest :=
  struct FIELDS fun at_ => do
    let id ← required string (at_ "id")
    let name ← required string (at_ "name")
    let version ← required string (at_ "version")
    let api_version ← required u32 (at_ "api_version")
    let kind ← required (variant EXTENSION_KINDS) (at_ "kind")
    let entrypoint ← required string (at_ "entrypoint")
    let permissions ← with_default [] (vec string) (at_ "permissions")
    return { id, name, version, api_version, kind, entrypoint, permissions }

/-- The problems of a manifest. `debug` is `{:?}` of a string. -/
def validate_manifest (debug : String → String) (m : ExtensionManifest) : List String :=
  (if trim m.id = "" || !m.id.toList.contains '.' then
    ["id " ++ debug m.id ++ ": must be reverse-DNS"] else []) ++
  (if trim m.name = "" then ["name: must not be empty"] else []) ++
  (if trim m.version = "" then ["version: must be a SemVer string"] else []) ++
  (if m.api_version ≠ MANIFEST_SCHEMA_VERSION then
    ["api_version: this release supports manifest schema v" ++ toString MANIFEST_SCHEMA_VERSION ++
      ", but the manifest declares v" ++ toString m.api_version] else []) ++
  (if trim m.entrypoint = "" then ["entrypoint: must not be empty"] else [])

/-! ## Paths and files -/

/-- `Path::join`. An absolute path stays as it is. -/
def join (dir path : String) : String :=
  if starts_with path "/" then path
  else if dir = "" || ends_with dir "/" then dir ++ path
  else dir ++ "/" ++ path

/-- `Path::parent`. -/
def parent (path : String) : String :=
  match rfind '/' path.toList with
  | none => ""
  | some i =>
    let dir := ((path.toList.take i).reverse.dropWhile (· == '/')).reverse
    if dir = [] then "/" else String.ofList dir

/-- An entry of a directory. A directory that cannot be read counts as an empty one. -/
inductive Entry where
  | File (name : String)
  | Dir (name : String) (entries : List Entry)

/-- What the system answers, and the texts of the crates: `yaml` is `serde_yaml::from_str`
into a JSON value, `refusal` the reason for which `serde_json::from_value` refuses a
value, and `debug` is `{:?}` of a string. -/
structure System where
  read_dir : String → List Entry
  read_to_string : String → Except String String
  yaml : String → Except String Value
  refusal : Value → String
  debug : String → String

section

variable (sys : System)

/-! ## Discovery -/

def load_manifest (path : String) : Except (List String) ExtensionManifest :=
  match sys.read_to_string path with
  | .error e => .error [path ++ ": " ++ e]
  | .ok text =>
    match sys.yaml text with
    | .error e => .error [path ++ ": parse error: " ++ e]
    | .ok value =>
      match ExtensionManifest.deserialize value with
      | none => .error [path ++ ": " ++ sys.refusal value]
      | some manifest =>
        let problems := (validate_manifest sys.debug manifest).map fun p => path ++ ": " ++ p
        if problems.isEmpty then .ok manifest else .error problems

structure DiscoveredExtension where
  manifest : ExtensionManifest
  dir : String
  deriving DecidableEq

/-- The extensions that are found, and the problems on the way. -/
abbrev Found := List DiscoveredExtension × List String

def found_file (dir name : String) : Found :=
  let path := join dir name
  if name = "extension.yaml" then
    match load_manifest sys path with
    | .ok manifest => ([{ manifest, dir := parent path }], [])
    | .error problems => ([], problems)
  else ([], [])

mutual

def walk_entry (dir : String) : Entry → Found
  | .File name => found_file sys dir name
  | .Dir name entries => walk (join dir name) entries

def walk (dir : String) : List Entry → Found
  | [] => ([], [])
  | entry :: entries =>
    let here := walk_entry dir entry
    let rest := walk dir entries
    (here.1 ++ rest.1, here.2 ++ rest.2)

end

def discover (root : String) : Found := walk sys root (sys.read_dir root)

/-! ## The lenses -/

structure DiscoveredLens where
  id : String
  name : String
  target : kube.GroupVersionKind
  entrypoint : String
  deriving DecidableEq

def target_of (value : Value) : Except String kube.GroupVersionKind :=
  match value.get "target" with
  | none => .error "lens has no `target`"
  | some target =>
    let group := ((target.get "group").bind Value.as_str).getD ""
    match (target.get "version").bind Value.as_str with
    | none => .error "lens target has no `version`"
    | some version =>
      match (target.get "kind").bind Value.as_str with
      | none => .error "lens target has no `kind`"
      | some kind => .ok { group, version, kind }

def read_lens_target (path : String) : Except String kube.GroupVersionKind :=
  match sys.read_to_string path with
  | .error e => .error ("cannot read lens: " ++ e)
  | .ok text =>
    match sys.yaml text with
    | .error e => .error ("cannot parse lens: " ++ e)
    | .ok value => target_of value

/-- The lens of an extension, or the problem with its file. -/
def lens_of (ext : DiscoveredExtension) : Except String DiscoveredLens :=
  let entry := join ext.dir ext.manifest.entrypoint
  match read_lens_target sys entry with
  | .ok target =>
    .ok { id := ext.manifest.id, name := ext.manifest.name, target, entrypoint := entry }
  | .error e => .error (entry ++ ": " ++ e)

def target_text (target : kube.GroupVersionKind) : String :=
  target.group ++ "/" ++ target.version ++ "/" ++ target.kind

def cmp_lenses (a b : DiscoveredLens) : Ordering :=
  (compare (target_text a.target) (target_text b.target)).then (compare a.id b.id)

def problem? {α : Type} : Except String α → Option String
  | .ok _ => none
  | .error e => some e

/-- The lenses, by their targets and then by their ids. -/
def discover_lenses (std : StableSort) (root : String) : List DiscoveredLens × List String :=
  let found := discover sys root
  let lenses := (found.1.filter fun ext => ext.manifest.kind = .Lens).map (lens_of sys)
  (std.sort_by cmp_lenses (lenses.filterMap Except.toOption), found.2 ++ lenses.filterMap problem?)

/-! ## What is discovered -/

theorem load_manifest_valid {path : String} {manifest : ExtensionManifest}
    (h : load_manifest sys path = .ok manifest) : validate_manifest sys.debug manifest = [] := by
  unfold load_manifest at h
  split at h
  · cases h
  split at h
  · cases h
  split at h
  · cases h
  dsimp only at h
  split at h
  · rename_i hempty
    cases h
    rw [List.isEmpty_iff, List.map_eq_nil_iff] at hempty
    exact hempty
  · cases h

theorem found_file_valid {dir name : String} {ext : DiscoveredExtension}
    (h : ext ∈ (found_file sys dir name).1) : validate_manifest sys.debug ext.manifest = [] := by
  unfold found_file at h
  dsimp only at h
  split at h
  · split at h
    · rename_i manifest hload
      rw [List.mem_singleton] at h
      rw [h]
      exact load_manifest_valid sys hload
    · cases h
  · cases h

mutual

theorem walk_entry_valid (dir : String) (ext : DiscoveredExtension) :
    ∀ entry, ext ∈ (walk_entry sys dir entry).1 → validate_manifest sys.debug ext.manifest = []
  | .File _, h => found_file_valid sys h
  | .Dir name entries, h => walk_valid (join dir name) ext entries h

theorem walk_valid (dir : String) (ext : DiscoveredExtension) :
    ∀ entries, ext ∈ (walk sys dir entries).1 → validate_manifest sys.debug ext.manifest = []
  | [], h => by cases h
  | entry :: entries, h => by
    rcases List.mem_append.mp h with hhere | hrest
    · exact walk_entry_valid dir ext entry hhere
    · exact walk_valid dir ext entries hrest

end

/-- Only a manifest without problems is discovered. -/
theorem discover_valid {root : String} {ext : DiscoveredExtension}
    (h : ext ∈ (discover sys root).1) : validate_manifest sys.debug ext.manifest = [] :=
  walk_valid sys root ext _ h

theorem lens_of_target {ext : DiscoveredExtension} {lens : DiscoveredLens}
    (h : lens_of sys ext = .ok lens) : read_lens_target sys lens.entrypoint = .ok lens.target := by
  unfold lens_of at h
  dsimp only at h
  split at h
  · rename_i target htarget
    cases h
    exact htarget
  · cases h

/-- The target of a discovered lens is the one that its file declares. -/
theorem discover_lenses_target {std : StableSort} {root : String} {lens : DiscoveredLens}
    (h : lens ∈ (discover_lenses sys std root).1) :
    read_lens_target sys lens.entrypoint = .ok lens.target := by
  have hmem := (std.perm cmp_lenses _).mem_iff.mp h
  rw [List.mem_filterMap] at hmem
  obtain ⟨read, hread, hok⟩ := hmem
  obtain ⟨ext, -, rfl⟩ := List.mem_map.mp hread
  cases hlens : lens_of sys ext with
  | error e =>
    rw [hlens] at hok
    cases hok
  | ok found =>
    rw [hlens] at hok
    cases hok
    exact lens_of_target sys hlens

instance : Std.TransCmp cmp_lenses :=
  inferInstanceAs (Std.TransCmp (compareLex
    (compareOn fun lens : DiscoveredLens => target_text lens.target)
    (compareOn fun lens : DiscoveredLens => lens.id)))

/-- The lenses of one target stand together, in the order of their ids. -/
theorem discover_lenses_in_order (std : StableSort) (root : String) :
    (discover_lenses sys std root).1.Pairwise fun a b => (cmp_lenses a b).isLE :=
  std.sorted cmp_lenses _

end

end kaptein_core.extension
