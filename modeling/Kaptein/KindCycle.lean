-- The kinds of a session: the built-in ones, and one for each lens that is enabled and
-- loads. `Tab` goes from one to the next, and finds its place by label and by target.
import Kaptein.Config
import Kaptein.Extension
import Kaptein.Lib.Tour
import Kaptein.Loader
import Kaptein.Tui

open tours serde serde_json rust_str rust_slice kaptein_core.config kaptein_core.extension
  kaptein_viewmodel kaptein_viewmodel.lens kaptein_viewmodel.viewdef

namespace kaptein_integration

/-- The lens of a file, once it has no problems. -/
def load_lens [AlphanumericTable] (sys : System) (path : String) :
    Except String viewdef.ViewDefinition :=
  match sys.read_to_string path with
  | .error e => .error ("cannot read " ++ path ++ ": " ++ e)
  | .ok text =>
    match sys.yaml text with
    | .error e => .error ("cannot parse " ++ path ++ ": " ++ e)
    | .ok value =>
      match ViewDefinition.deserialize value with
      | none => .error ("cannot deserialize " ++ path ++ ": " ++ sys.refusal value)
      | some vd =>
        let problems := validate_viewdef sys.debug vd
        if problems.isEmpty then .ok vd
        else .error ("lens " ++ path ++ " is invalid (" ++ toString problems.length ++
          " problem(s)): " ++ String.intercalate "; " problems)

end kaptein_integration

open kaptein_integration

namespace kaptein_tui

/-- The place of the first column that passes, if there is one. -/
def position (vd : viewdef.ViewDefinition) (p : viewdef.Column → Bool) : Option Nat :=
  vd.columns.findIdx? p

def Kind.from_lens (vd : viewdef.ViewDefinition) : Kind where
  label := vd.target.kind
  gvk := { group := vd.target.group, version := vd.target.version, kind := vd.target.kind }
  cluster_scoped := (position vd fun c => c.field == some "metadata.namespace").isNone
  headers := vd.columns.map fun c => to_ascii_uppercase c.id
  name_col := (position vd fun c => c.field == some "metadata.name").getD 0
  namespace_col := position vd fun c => c.field == some "metadata.namespace"
  status_col := position vd fun c => c.kind == .Status
  created_col := position vd fun c => c.kind == .Timestamp
  lens := some vd

section

variable [AlphanumericTable] (std : StableSort) (sys : System) (dir : Option String)
  (config : Config)

/-- The lenses in the directory of the variable `KAPTEIN_EXTENSIONS_DIR`, without the
disabled ones. -/
def enabled_lenses : List DiscoveredLens :=
  (discover_lenses sys std (dir.getD "extensions")).1.filter fun lens =>
    config.extensions.is_enabled lens.id

/-- The kind of a lens, or the line that says why there is none. -/
def lens_kind (lens : DiscoveredLens) : Except String Kind :=
  match load_lens sys lens.entrypoint with
  | .ok vd => .ok (.from_lens vd)
  | .error e => .error ("skipping lens " ++ lens.id ++ ": " ++ e)

/-- `discover_lens_kinds`, with the lines that it reports. -/
def discover_lens_kinds : List Kind × List String :=
  let problems := (discover_lenses sys std (dir.getD "extensions")).2
  let kinds := (enabled_lenses std sys dir config).map (lens_kind sys)
  (kinds.filterMap Except.toOption,
    problems.map (fun p => "lens discovery: " ++ p) ++ kinds.filterMap problem?)

def session_kinds : Kinds := all_kinds (discover_lens_kinds std sys dir config).1

/-! ## The targets -/

/-- The enabled lenses whose files load. -/
def loaded_lenses : List DiscoveredLens :=
  (enabled_lenses std sys dir config).filter fun lens => (lens_kind sys lens).toOption.isSome

theorem load_lens_ok {path : String} {vd : viewdef.ViewDefinition}
    (h : load_lens sys path = .ok vd) :
    ∃ text value, sys.read_to_string path = .ok text ∧ sys.yaml text = .ok value ∧
      ViewDefinition.deserialize value = some vd := by
  unfold load_lens at h
  split at h
  · cases h
  rename_i text htext
  split at h
  · cases h
  rename_i value hvalue
  split at h
  · cases h
  rename_i read hread
  dsimp only at h
  split at h
  · cases h
    exact ⟨text, value, htext, hvalue, hread⟩
  · cases h

omit [AlphanumericTable] in
theorem target_of_deserialize {value : Value} {vd : viewdef.ViewDefinition}
    {target : kube.GroupVersionKind} (hload : ViewDefinition.deserialize value = some vd)
    (hread : target_of value = .ok target) : (Kind.from_lens vd).gvk = target := by
  obtain ⟨-, -, -, htarget, -⟩ := ViewDefinition.deserialize_eq_some.mp hload
  unfold target_of at hread
  split at hread
  · cases hread
  rename_i inner hinner
  dsimp only at hread
  split at hread
  · cases hread
  rename_i version hversion
  split at hread
  · cases hread
  rename_i kind hkind
  cases hread
  rw [field_of_get hinner, hinner] at htarget
  obtain ⟨-, hgroup', hversion', hkind'⟩ := GroupVersionKind.deserialize_eq_some.mp htarget
  obtain ⟨v, hv, hversion⟩ := Option.bind_eq_some_iff.mp hversion
  obtain ⟨w, hw, hkind⟩ := Option.bind_eq_some_iff.mp hkind
  rw [required_string, field_of_get hv, hv] at hversion'
  rw [required_string, field_of_get hw, hw] at hkind'
  cases hversion'
  cases hkind'
  cases hversion
  cases hkind
  rw [field_of_get hv, with_default_string] at hgroup'
  rcases hgroup' with ⟨hnone, hempty⟩ | hsome
  · simp [Kind.from_lens, hnone, ← hempty]
  · simp [Kind.from_lens, hsome, Value.as_str]

/-- Discovery reads the same target from a file as the loader. -/
theorem load_lens_target {path : String} {vd : viewdef.ViewDefinition}
    {target : kube.GroupVersionKind} (hload : load_lens sys path = .ok vd)
    (hread : read_lens_target sys path = .ok target) : (Kind.from_lens vd).gvk = target := by
  obtain ⟨text, value, htext, hvalue, hvd⟩ := load_lens_ok sys hload
  apply target_of_deserialize hvd
  unfold read_lens_target at hread
  rw [htext] at hread
  dsimp only at hread
  rw [hvalue] at hread
  exact hread

theorem lens_kind_gvk {root : String} {lens : DiscoveredLens} {kind : Kind}
    (hlens : lens ∈ (discover_lenses sys std root).1) (h : lens_kind sys lens = .ok kind) :
    kind.gvk = lens.target := by
  unfold lens_kind at h
  split at h
  · rename_i vd hload
    cases h
    exact load_lens_target sys hload (discover_lenses_target sys hlens)
  · cases h

theorem gvks_of_loaded {lenses : List DiscoveredLens}
    (h : ∀ lens ∈ lenses, ∀ kind, lens_kind sys lens = .ok kind → kind.gvk = lens.target) :
    ((lenses.map (lens_kind sys)).filterMap Except.toOption).map Kind.gvk =
      (lenses.filter fun lens => (lens_kind sys lens).toOption.isSome).map
        DiscoveredLens.target := by
  induction lenses with
  | nil => rfl
  | cons lens lenses ih =>
    obtain ⟨hlens, hlenses⟩ := List.forall_mem_cons.mp h
    rw [List.map_cons, List.filterMap_cons, List.filter_cons]
    cases hkind : lens_kind sys lens with
    | error e => exact ih hlenses
    | ok kind => exact congrArg₂ List.cons (hlens kind hkind) (ih hlenses)

/-- The kinds of the lenses list the targets of the lenses. -/
theorem discovered_gvks : (discover_lens_kinds std sys dir config).1.map Kind.gvk =
    (loaded_lenses std sys dir config).map DiscoveredLens.target := by
  apply gvks_of_loaded
  intro lens hlens kind hkind
  exact lens_kind_gvk std sys (List.mem_of_mem_filter hlens) hkind

theorem discovered_from_lens {kind : Kind} (h : kind ∈ (discover_lens_kinds std sys dir config).1) :
    ∃ vd, kind = .from_lens vd := by
  obtain ⟨read, hread, hok⟩ := List.mem_filterMap.mp h
  obtain ⟨lens, -, rfl⟩ := List.mem_map.mp hread
  unfold lens_kind at hok
  split at hok
  · rename_i vd hload
    cases hok
    exact ⟨vd, rfl⟩
  · cases hok

end

/-! ## The identity of a kind -/

/-- What `next_kind` compares. -/
def Kind.identity (kind : Kind) : String × kube.GroupVersionKind := (kind.label, kind.gvk)

theorem next_kind_place (kinds : Kinds) (x : Kind) :
    kinds.all[((kinds.all.findIdx? fun k => k.identity = x.identity).getD 0 + 1) %
      kinds.all.length]? = some (next_kind kinds x) := by
  have hsame : (fun k : Kind => decide (k.identity = x.identity)) =
      fun k => k.label == x.label && k.gvk == x.gvk := by
    funext k
    rw [Bool.eq_iff_iff]
    simp [Kind.identity]
  rw [hsame]
  exact List.getElem?_eq_getElem _

theorem next_kind_of_identity (kinds : Kinds) (x y : Kind) (h : x.identity = y.identity) :
    next_kind kinds x = next_kind kinds y := by
  have hx := next_kind_place kinds x
  rw [h, next_kind_place kinds y] at hx
  exact (Option.some.inj hx).symm

theorem next_kind_in_order {kinds : Kinds} (hkeys : (kinds.all.map Kind.identity).Nodup) (i : Nat)
    (x : Kind) (hx : kinds.all[i]? = some x) :
    kinds.all[(i + 1) % kinds.all.length]? = some (next_kind kinds x) := by
  have hplace := next_kind_place kinds x
  rw [findIdx?_of_key hkeys hx] at hplace
  exact hplace

/-- A lens is named by its target, and a built-in kind is not. -/
theorem identities_nodup_iff {lens_kinds : List Kind}
    (h : ∀ kind ∈ lens_kinds, ∃ vd, kind = .from_lens vd) :
    ((all_kinds lens_kinds).all.map Kind.identity).Nodup ↔ (lens_kinds.map Kind.gvk).Nodup := by
  have hnamed : lens_kinds.map Kind.identity =
      (lens_kinds.map Kind.gvk).map fun gvk => (gvk.kind, gvk) := by
    rw [List.map_map]
    apply List.map_congr_left
    intro kind hkind
    obtain ⟨vd, rfl⟩ := h kind hkind
    rfl
  have hbuiltin : ∀ p ∈ builtin_kinds.map Kind.identity, p.1 ≠ p.2.kind := by decide
  change ((builtin_kinds ++ lens_kinds).map Kind.identity).Nodup ↔ _
  rw [List.map_append, hnamed, List.nodup_append]
  constructor
  · rintro ⟨-, hlenses, -⟩
    exact hlenses.of_map _
  · intro hlenses
    refine ⟨by decide, ?_, ?_⟩
    · apply hlenses.map
      intro g g' heq
      exact (Prod.mk.inj heq).2
    · rintro p hp q hq rfl
      obtain ⟨gvk, -, rfl⟩ := List.mem_map.mp hq
      exact hbuiltin _ hp rfl

/-- The first kind is built in, and stands in the list once. -/
theorem first_kind_once {lens_kinds : List Kind}
    (h : ∀ kind ∈ lens_kinds, ∃ vd, kind = .from_lens vd) :
    (all_kinds lens_kinds).first ∉ (all_kinds lens_kinds).rest := by
  intro hmem
  rcases List.mem_append.mp hmem with hbuiltin | hlens
  · have hlabel : "Pods" ∈ builtin_kinds.tail.map Kind.label :=
      List.mem_map.mpr ⟨_, hbuiltin, rfl⟩
    exact absurd hlabel (by decide)
  · obtain ⟨vd, hvd⟩ := h _ hlens
    exact absurd (congrArg Kind.lens hvd) (by simp [all_kinds, Kind.builtin, Kind.from_lens])

section

variable [AlphanumericTable] (std : StableSort) (sys : System) (dir : Option String)
  (config : Config)

/-- `Tab` tours the kinds from every kind exactly where no two lenses have one target. -/
theorem tab_tours_iff :
    (∀ kind ∈ (session_kinds std sys dir config).all,
      Tours (next_kind (session_kinds std sys dir config)) (session_kinds std sys dir config).all
        kind) ↔ ((loaded_lenses std sys dir config).map DiscoveredLens.target).Nodup := by
  have hlens := fun kind => @discovered_from_lens _ std sys dir config kind
  rw [← discovered_gvks, ← identities_nodup_iff hlens]
  exact all_tour_iff (first_kind_once hlens) (next_kind_of_identity _) next_kind_in_order

end

/-! ## Two lenses of one target -/

theorem one_fits : 1 < 2 ^ 64 := by decide

def one : Value := .number (.PosInt 1 one_fits)

def manifest_text (id : String) : String :=
  "id: " ++ id ++ "\nname: Maps\nversion: 1.0.0\napi_version: 1\nkind: lens\n" ++
    "entrypoint: lens.yaml\n"

def manifest_value (id : String) : Value :=
  .object [("id", .string id), ("name", .string "Maps"), ("version", .string "1.0.0"),
    ("api_version", one), ("kind", .string "lens"), ("entrypoint", .string "lens.yaml")]

def lens_text (id : String) : String :=
  "id: " ++ id ++ "\napi_version: 1\ntarget:\n  version: v1\n  kind: ConfigMap\n"

def lens_value (id : String) : Value :=
  .object [("id", .string id), ("api_version", one),
    ("target", .object [("version", .string "v1"), ("kind", .string "ConfigMap")])]

/-- The files with their texts, and what their texts say. -/
def map_files : List (String × String × Value) :=
  [("extensions/a/extension.yaml", manifest_text "com.example.a", manifest_value "com.example.a"),
    ("extensions/a/lens.yaml", lens_text "com.example.a", lens_value "com.example.a"),
    ("extensions/b/extension.yaml", manifest_text "com.example.b", manifest_value "com.example.b"),
    ("extensions/b/lens.yaml", lens_text "com.example.b", lens_value "com.example.b")]

def found {α : Type} (xs : List (String × α)) (key : String) : Except String α :=
  match xs.lookup key with
  | some x => .ok x
  | none => .error "not found"

def lens_dir (name : String) : Entry := .Dir name [.File "extension.yaml", .File "lens.yaml"]

/-- Two directories of extensions, `a` and `b`. -/
def two_lenses : System where
  read_dir root := if root = "extensions" then [lens_dir "a", lens_dir "b"] else []
  read_to_string path := (found map_files path).map Prod.fst
  yaml := found (map_files.map Prod.snd)
  refusal _ := "invalid type"
  debug s := "\"" ++ s ++ "\""

def map_lens (name : String) : DiscoveredLens where
  id := "com.example." ++ name
  name := "Maps"
  target := { group := "", version := "v1", kind := "ConfigMap" }
  entrypoint := "extensions/" ++ name ++ "/lens.yaml"

theorem map_lenses_discovered :
    (discover_lenses two_lenses mergeSort "extensions").1 = [map_lens "a", map_lens "b"] := by
  have hread : (((discover two_lenses "extensions").1.filter fun ext =>
      ext.manifest.kind = .Lens).map (lens_of two_lenses)).filterMap Except.toOption =
      [map_lens "a", map_lens "b"] := by decide +kernel
  unfold discover_lenses
  dsimp only
  rw [hread]
  exact mergeSort_of_sorted _ _ (by decide +kernel)

theorem map_lenses_enabled : enabled_lenses mergeSort two_lenses none Config.default =
    [map_lens "a", map_lens "b"] := by
  unfold enabled_lenses
  rw [Option.getD_none, map_lenses_discovered]
  rfl

def map_kind (name : String) : Kind :=
  .from_lens {
    id := "com.example." ++ name
    api_version := 1
    target := { group := "", version := "v1", kind := "ConfigMap" }
    columns := []
    status := []
    conditions := []
    health := []
    actions := [] }

theorem map_kinds_discovered :
    (@discover_lens_kinds ascii_alphanumeric mergeSort two_lenses none Config.default).1 =
      [map_kind "a", map_kind "b"] := by
  unfold discover_lens_kinds
  rw [map_lenses_enabled]
  rfl

/-- `Tab` stays at the second lens forever. -/
theorem tab_stops_at_the_second_lens :
    let kinds := @session_kinds ascii_alphanumeric mergeSort two_lenses none Config.default
    kinds.all = builtin_kinds ++ [map_kind "a", map_kind "b"] ∧
      next_kind kinds (map_kind "b") = map_kind "b" ∧
      ¬ ∀ kind ∈ kinds.all, Tours (next_kind kinds) kinds.all kind := by
  intro kinds
  have hkinds : kinds = all_kinds [map_kind "a", map_kind "b"] :=
    congrArg all_kinds map_kinds_discovered
  have hlens : ∀ kind ∈ [map_kind "a", map_kind "b"], ∃ vd, kind = .from_lens vd := by
    intro kind hkind
    rw [← map_kinds_discovered] at hkind
    exact @discovered_from_lens ascii_alphanumeric _ _ _ _ _ hkind
  rw [hkinds]
  refine ⟨rfl, rfl, ?_⟩
  intro htours
  have hnodup := keys_nodup_of_tours (next_kind_of_identity _) (first_kind_once hlens)
    (htours _ List.mem_cons_self)
  rw [← Kinds.all, identities_nodup_iff hlens] at hnodup
  exact absurd hnodup (by decide)

end kaptein_tui
