-- `kaptein get` (`main.rs`) over the list requests of the core (`discovery.rs`). A kind is listed
-- in one answer, or as metadata page by page, or through a lens, and is printed line by line.
import Kaptein.KindCycle
import Kaptein.Lib.Paging
import Kaptein.Logs
import Kaptein.Store
import Kaptein.Table

open rust_str rust_slice serde_json paging kube kaptein_core kaptein_viewmodel
  kaptein_viewmodel.lens kaptein_viewmodel.table
open kaptein_integration (no_doubles)
open kaptein_viewmodel.viewdef (AlphanumericTable ascii_alphanumeric)

namespace kaptein_core.discovery

/-! ## The list requests -/

/-- What the API server answers to a list of a kind, in a namespace or in all, under a label
selector or under none. A metadata list is answered page by page. -/
structure ListServer (τ : Type) where
  list : GroupVersionKind → (namespace_ selector : Option String) →
    Except String (List DynamicObject)
  list_metadata : GroupVersionKind → (namespace_ selector : Option String) → (limit : Nat) →
    Answers DynamicObject τ String

section
variable {τ : Type} (server : ListServer τ) (gvk : GroupVersionKind) (namespace_ : Option String)

def list : Except String (List ResourceSummary) :=
  (server.list gvk namespace_ none).map fun items => items.map fun obj => summary_of obj gvk

/-- An empty selector is no selector. -/
def labels (label_selector : Option String) : Option String := label_selector.filter (· ≠ "")

def list_with_selector (label_selector : Option String) : Except String (List ResourceSummary) :=
  (server.list gvk namespace_ (labels label_selector)).map fun items =>
    items.map fun obj => summary_of obj gvk

def list_objects_with_selector (label_selector : Option String) :
    Except String (List DynamicObject) :=
  server.list gvk namespace_ (labels label_selector)

def list_metadata_bounded_with_selector (label_selector : Option String) (limit : Nat) :
    Answers ResourceSummary τ String :=
  Answers.map (fun obj => store.summary_of_meta obj gvk)
    (server.list_metadata gvk namespace_ (labels label_selector) (max limit 1))

end

end kaptein_core.discovery

namespace kaptein_cli.get

open kaptein_core.discovery kaptein_core.extension kaptein_core.redact

/-! ## The command -/

/-- What the command reads beside its arguments. -/
structure Env (τ : Type) where
  server : ListServer τ
  sys : System
  display : Time → String
  /-- The error of `serde_json::to_value` at an object. -/
  refusal : DynamicObject → String

structure Options where
  namespace_ : Option String := none
  sort : Option String := none
  descending : Bool := false
  filter : Option String := none
  selector : Option String := none
  metadata : Bool := false
  lens : Option String := none

def COLUMN_IDS : List String := ["name", "namespace", "status", "created"]

def row_of (display : Time → String) (s : ResourceSummary) : Row where
  id := s.uid.getD (if s.namespace_ = "" then s.name else s.namespace_ ++ "/" ++ s.name)
  cells := [.Text s.name, .Text s.namespace_, .Text s.status,
    .Text ((s.created.map display).getD "")]

def sort_column (s : String) : Option String :=
  let s := to_ascii_lowercase s
  if s = "name" then some "name"
  else if s = "namespace" ∨ s = "ns" then some "namespace"
  else if s = "created" ∨ s = "age" then some "created"
  else none

def sort_spec (sort : Option String) (descending : Bool) : Option SortSpec :=
  (sort.bind sort_column).map fun column => { column, descending }

/-- The text of a cell of one of the rows, which have four. -/
def text_at (row : Row) (i : Nat) : String := (row.cells[i]?.map table.cell_text).getD ""

def line (gvk : GroupVersionKind) (row : Row) : String :=
  text_at row 1 ++ "\t" ++ gvk.kind ++ "\t" ++ text_at row 0 ++ "\t" ++ text_at row 3

section
variable {τ : Type} (std : StableSort) (env : Env τ) (gvk : GroupVersionKind) (opts : Options)

/-- The lines of the listed items: sorted, then filtered. -/
def item_lines (items : List ResourceSummary) : List String :=
  let rows := items.map (row_of env.display)
  let rows := sort_rows std rows COLUMN_IDS (sort_spec opts.sort opts.descending)
  let rows := filter_rows rows (opts.filter.map fun expression => { expression })
  rows.map (line gvk)

/-- The items, or `none` where the fuel ends before the pages. -/
def items (fuel : Nat) : Option (Except String (List ResourceSummary)) :=
  if opts.metadata then
    (read_pages (list_metadata_bounded_with_selector env.server gvk opts.namespace_ opts.selector
      500) (· ++ ·) fuel 0 none []).map fun (all, result) => result.map fun _ => all
  else if opts.selector.any (· ≠ "") then
    some (list_with_selector env.server gvk opts.namespace_ opts.selector)
  else some (kaptein_core.discovery.list env.server gvk opts.namespace_)

variable [FloatText]

/-- The loop over the objects of a lens. -/
def print_objects (vd : lens.ViewDefinition) : List DynamicObject → Output
  | [] => Output.lines []
  | obj :: objs =>
    let obj := redact_object obj
    match obj.to_value with
    | none =>
      { stdout := [], stderr := [],
        result := .error (.error ("serialize object: " ++ env.refusal obj)) }
    | some value =>
      let row := render_row vd ⟨value⟩
      let out := print_objects vd objs
      { out with stdout := "\t".intercalate (row.cells.map table.cell_text) :: out.stdout }

variable [AlphanumericTable]

def print_lens (lens_file : String) : Output :=
  match env.sys.read_to_string lens_file with
  | .error e => Output.of (.error (.error ("cannot read " ++ lens_file ++ ": " ++ e))) Output.lines
  | .ok lens_text =>
    match env.sys.yaml lens_text with
    | .error e =>
      Output.of (.error (.error ("cannot parse " ++ lens_file ++ ": " ++ e))) Output.lines
    | .ok lens_value =>
      match viewdef.ViewDefinition.deserialize lens_value with
      | none =>
        Output.of (.error (.error
          ("cannot deserialize " ++ lens_file ++ ": " ++ env.sys.refusal lens_value))) Output.lines
      | some vd =>
        let problems := viewdef.validate_viewdef env.sys.debug vd
        if problems.isEmpty then
          Output.of (describe.asked
            (list_objects_with_selector env.server gvk opts.namespace_ opts.selector))
            (print_objects env vd.to_lens)
        else
          { stdout := []
            stderr := problems.map fun p => "error: " ++ p
            result := .error (.error ("lens " ++ lens_file ++ " is invalid (" ++
              toString problems.length ++ " problem(s))")) }

/-- `kaptein get`, on the server of its context and with its kind. -/
def print_get (fuel : Nat) : Option Output :=
  match opts.lens with
  | some lens_file => some (print_lens env gvk opts lens_file)
  | none => (items env gvk opts fuel).map fun items =>
    Output.of (describe.asked items) fun items => Output.lines (item_lines std env gvk opts items)

end

/-! ## A row without its status -/

def blank (row : Row) : Row := { row with cells := row.cells.set 2 (.Text "") }

theorem row_of_meta (display : Time → String) (gvk : GroupVersionKind) (obj : DynamicObject) :
    row_of display (store.summary_of_meta obj gvk) = blank (row_of display (summary_of obj gvk)) :=
  rfl

theorem blank_cell (row : Row) {i : Nat} (h : i ≠ 2) : (blank row).cells[i]? = row.cells[i]? :=
  List.getElem?_set_ne (Ne.symm h)

/-- The status is not printed. -/
theorem line_blank (gvk : GroupVersionKind) (row : Row) : line gvk (blank row) = line gvk row := by
  simp only [line, text_at, blank_cell row (show 0 ≠ 2 by decide),
    blank_cell row (show 1 ≠ 2 by decide), blank_cell row (show 3 ≠ 2 by decide)]

theorem contains_empty {pat : String} (h : contains "" pat = true) : pat = "" := by
  obtain ⟨t, ht, hpat⟩ := List.any_eq_true.mp h
  obtain rfl : t = [] := List.suffix_nil.mp ((List.mem_tails _ _).mp ht)
  exact String.toList_inj.mp (List.prefix_nil.mp (List.isPrefixOf_iff_prefix.mp hpat))

/-- A row that is found without its status is found with it. -/
theorem row_matches_blank {needle : String} (hne : needle ≠ "") {row : Row}
    (h : row_matches needle (blank row) = true) : row_matches needle row = true := by
  obtain ⟨c, hc, hneedle⟩ := List.any_eq_true.mp h
  rcases List.mem_or_eq_of_mem_set hc with hc | rfl
  · exact List.any_eq_true.mpr ⟨c, hc, hneedle⟩
  · exact absurd (contains_empty hneedle) hne

theorem needle_ne {filter : Option Filter} {needle : String} (h : needle_of filter = some needle) :
    needle ≠ "" := by
  unfold needle_of at h
  cases filter with
  | none => cases h
  | some filter =>
    dsimp only at h
    split at h
    · cases h
    · rename_i hne
      exact Option.some.inj h ▸ hne

/-! ## The order and the filter -/

theorem sort_spec_column {sort : Option String} {descending : Bool} {spec : SortSpec}
    (h : sort_spec sort descending = some spec) : spec.column ≠ "status" := by
  obtain ⟨column, hcolumn, rfl⟩ := Option.map_eq_some_iff.mp h
  obtain ⟨s, -, hs⟩ := Option.bind_eq_some_iff.mp hcolumn
  dsimp only [sort_column] at hs
  split_ifs at hs <;> cases hs <;> simp

theorem column_of_place {column : String}
    (h : COLUMN_IDS.findIdx? (· == column) = some 2) : column = "status" := by
  obtain ⟨_, hcolumn, -⟩ := List.findIdx?_eq_some_iff_getElem.mp h
  exact (eq_of_beq hcolumn).symm

/-- The command never sorts by the status. -/
theorem comparator_blank {sort : Option String} {descending : Bool} {cmp : Row → Row → Ordering}
    (h : comparator COLUMN_IDS (sort_spec sort descending) = some cmp) (a b : Row) :
    cmp (blank a) (blank b) = cmp a b := by
  cases hsort : sort_spec sort descending with
  | none =>
    rw [hsort] at h
    cases h
  | some spec =>
    rw [hsort, comparator, Option.map_eq_some_iff] at h
    obtain ⟨i, hi, rfl⟩ := h
    have hne : i ≠ 2 := by
      rintro rfl
      exact sort_spec_column hsort (column_of_place hi)
    simp only [cmp_rows, blank_cell _ hne]

theorem sort_rows_blank (std : StableSort) (sort : Option String) (descending : Bool)
    (rows : List Row) :
    sort_rows std (rows.map blank) COLUMN_IDS (sort_spec sort descending) =
      (sort_rows std rows COLUMN_IDS (sort_spec sort descending)).map blank := by
  unfold sort_rows
  cases hcmp : comparator COLUMN_IDS (sort_spec sort descending) with
  | none => rfl
  | some cmp =>
    dsimp only
    rw [← std.map]
    congr 2
    funext a b
    exact comparator_blank hcmp a b

theorem sort_rows_perm (std : StableSort) (rows : List Row) (column_ids : List String)
    (sort : Option SortSpec) : (sort_rows std rows column_ids sort).Perm rows := by
  unfold sort_rows
  cases comparator column_ids sort with
  | none => exact List.Perm.refl rows
  | some cmp => exact std.perm cmp rows

/-- Of two filters of which one keeps less, both keep the same exactly where nothing tells them
apart. -/
theorem filter_map_eq_iff {α β : Type} {p q : α → Bool} (h : ∀ a, p a = true → q a = true)
    (f : α → β) (l : List α) :
    ((l.filter p).map f).Sublist ((l.filter q).map f) ∧
      ((l.filter p).map f = (l.filter q).map f ↔ ∀ a ∈ l, q a = true → p a = true) := by
  have hsub : (l.filter p).Sublist (l.filter q) := List.monotone_filter_right l h
  refine ⟨hsub.map f, ?_⟩
  constructor
  · intro heq a ha hq
    have hlength : (l.filter p).length = (l.filter q).length := by
      rw [← List.length_map f, heq, List.length_map]
    have hmem : a ∈ l.filter p := by
      rw [hsub.eq_of_length hlength]
      exact List.mem_filter.mpr ⟨ha, hq⟩
    exact (List.mem_filter.mp hmem).2
  · intro hall
    congr 1
    apply List.filter_congr
    intro a ha
    exact Bool.eq_iff_iff.mpr ⟨h a, hall a ha⟩

section

variable {τ : Type} (std : StableSort) (env : Env τ) (gvk : GroupVersionKind) (opts : Options)

/-- The needle of the command is in the row of the object. -/
def Found (needle : String) (s : ResourceSummary) : Prop :=
  row_matches needle (row_of env.display s) = true

def needle : Option String := needle_of (opts.filter.map fun expression => { expression })

/-- The lines of the metadata of some objects are lines of the objects, and the same lines exactly
where no object is found by its status alone. -/
theorem item_lines_meta (objs : List DynamicObject) :
    (item_lines std env gvk opts (objs.map fun obj => store.summary_of_meta obj gvk)).Sublist
        (item_lines std env gvk opts (objs.map fun obj => summary_of obj gvk)) ∧
      (item_lines std env gvk opts (objs.map fun obj => store.summary_of_meta obj gvk) =
          item_lines std env gvk opts (objs.map fun obj => summary_of obj gvk) ↔
        ∀ n, needle opts = some n → ∀ obj ∈ objs, Found env n (summary_of obj gvk) →
          Found env n (store.summary_of_meta obj gvk)) := by
  have hrows : (objs.map fun obj => store.summary_of_meta obj gvk).map (row_of env.display) =
      ((objs.map fun obj => summary_of obj gvk).map (row_of env.display)).map blank := by
    simp only [List.map_map, Function.comp_def, row_of_meta]
  have hline : (line gvk ∘ blank) = line gvk := funext (line_blank gvk)
  have hperm := sort_rows_perm std
    ((objs.map fun obj => summary_of obj gvk).map (row_of env.display)) COLUMN_IDS
    (sort_spec opts.sort opts.descending)
  simp only [item_lines, hrows, sort_rows_blank]
  generalize sort_rows std ((objs.map fun obj => summary_of obj gvk).map (row_of env.display))
    COLUMN_IDS (sort_spec opts.sort opts.descending) = rows at hperm ⊢
  unfold filter_rows needle
  cases hneedle : needle_of (opts.filter.map fun expression => { expression }) with
  | none =>
    simp only [List.map_map, hline, List.Sublist.refl, true_and, true_iff]
    intro n hn
    cases hn
  | some n =>
    have hkeeps : ∀ row, row_matches n (blank row) = true → row_matches n row = true :=
      fun row => row_matches_blank (needle_ne hneedle)
    obtain ⟨hsub, heq⟩ := filter_map_eq_iff hkeeps (line gvk) rows
    simp only [List.filter_map, List.map_map, hline]
    refine ⟨hsub, heq.trans ?_⟩
    constructor
    · intro hall m hm obj hobj hfound
      cases hm
      refine hall _ (hperm.mem_iff.mpr ?_) hfound
      exact List.mem_map_of_mem (List.mem_map_of_mem hobj)
    · intro hall row hrow hfound
      obtain ⟨s, hs, rfl⟩ := List.mem_map.mp (hperm.mem_iff.mp hrow)
      obtain ⟨obj, hobj, rfl⟩ := List.mem_map.mp hs
      exact hall n rfl obj hobj hfound

/-! ## The two lists -/

variable {std env gvk}

/-- Without `--metadata` the items come in one answer. -/
theorem items_listed {objs : List DynamicObject}
    (hlist : env.server.list gvk opts.namespace_ (labels opts.selector) = .ok objs) (fuel : Nat) :
    items env gvk { opts with metadata := false } fuel =
      some (.ok (objs.map fun obj => summary_of obj gvk)) := by
  by_cases hselector : opts.selector.any (· ≠ "") = true
  · simp only [items, hselector, list_with_selector, hlist, Except.map]
    rfl
  · have hnone : labels opts.selector = none := by
      cases h : opts.selector with
      | none => rfl
      | some s => simpa [labels, h] using hselector
    rw [hnone] at hlist
    simp only [items, hselector, kaptein_core.discovery.list, hlist, Except.map]
    rfl

/-- A page that the loop of `--metadata` asks for is answered with the error. -/
def PageFails (env : Env τ) (gvk : GroupVersionKind) (opts : Options) (e : String) : Prop :=
  Fails (env.server.list_metadata gvk opts.namespace_ (labels opts.selector) 500) 0 none e

/-- With it they are put together from the pages. -/
theorem items_paged {objs : List DynamicObject}
    (hpages : Serves (env.server.list_metadata gvk opts.namespace_ (labels opts.selector) 500)
      objs) :
    ∃ least, ∀ fuel, least ≤ fuel → ∃ answer,
      items env gvk { opts with metadata := true } fuel = some answer ∧
        (∀ e, answer = .error e ↔ PageFails env gvk opts e) ∧
        ((∃ e, answer = .error e) ∨
          answer = .ok (objs.map fun obj => store.summary_of_meta obj gvk)) := by
  have hserves := hpages.map fun obj => store.summary_of_meta obj gvk
  obtain ⟨least, hread⟩ := @read_pages_serves _ _ _ _ _ (· ++ ·) _ hserves []
  refine ⟨least, fun fuel hfuel => ?_⟩
  obtain ⟨pages, result, hread, hfails, -, hall⟩ := hread fuel hfuel
  refine ⟨result.map fun _ => pages.foldl (· ++ ·) [], ?_, fun e => ?_, ?_⟩
  · exact congrArg (Option.map _) hread
  · refine Iff.trans ?_ ((hfails e).trans Fails.map)
    cases result with
    | error e' => exact ⟨fun h => by cases h; rfl, fun h => by cases h; rfl⟩
    | ok u => exact iff_of_false nofun nofun
  · cases result with
    | error e => exact .inl ⟨e, rfl⟩
    | ok u =>
      refine .inr (congrArg Except.ok ?_)
      rw [foldl_take_in List.append_nil List.append_assoc, List.nil_append, hall rfl]

theorem print_get_listed [FloatText] [AlphanumericTable] (hlens : opts.lens = none)
    (metadata : Bool) (fuel : Nat) :
    print_get std env gvk { opts with metadata } fuel =
      (items env gvk { opts with metadata } fuel).map fun answer =>
        Output.of (describe.asked answer) fun items =>
          Output.lines (item_lines std env gvk opts items) := by
  obtain ⟨namespace_, sort, descending, filter, selector, _, lens⟩ := opts
  obtain rfl : lens = none := hlens
  rfl

/-- `get --metadata` prints lines of `get`, in their order, however the server cuts its list into
pages. They are the same lines exactly where the filter finds no object by its status alone.
Where a page that the loop asks for fails, and only there, nothing is printed but its error. -/
theorem the_metadata_list_prints_the_list [FloatText] [AlphanumericTable]
    {objs : List DynamicObject} (hlens : opts.lens = none)
    (hlist : env.server.list gvk opts.namespace_ (labels opts.selector) = .ok objs)
    (hpages : Serves (env.server.list_metadata gvk opts.namespace_ (labels opts.selector) 500)
      objs) :
    ∃ lines, (∀ fuel, print_get std env gvk { opts with metadata := false } fuel =
        some (Output.lines lines)) ∧
      ∃ least, ∀ fuel, least ≤ fuel → ∃ out,
        print_get std env gvk { opts with metadata := true } fuel = some out ∧
          ((∃ e, PageFails env gvk opts e ∧
              out = { stdout := [], stderr := [], result := .error (.error e) }) ∨
            (∀ e, ¬PageFails env gvk opts e) ∧
              out.result = .ok () ∧ out.stderr = [] ∧ out.stdout.Sublist lines ∧
              (out.stdout = lines ↔ ∀ n, needle opts = some n → ∀ obj ∈ objs,
                Found env n (summary_of obj gvk) →
                  Found env n (store.summary_of_meta obj gvk))) := by
  obtain ⟨hsub, heq⟩ := item_lines_meta std env gvk opts objs
  refine ⟨item_lines std env gvk opts (objs.map fun obj => summary_of obj gvk), ?_, ?_⟩
  · intro fuel
    rw [print_get_listed opts hlens, items_listed opts hlist fuel]
    rfl
  · obtain ⟨least, hpaged⟩ := items_paged opts hpages
    refine ⟨least, fun fuel hfuel => ?_⟩
    obtain ⟨answer, hitems, hfails, hanswer⟩ := hpaged fuel hfuel
    refine ⟨Output.of (describe.asked answer) fun items =>
      Output.lines (item_lines std env gvk opts items), ?_, ?_⟩
    · rw [print_get_listed opts hlens, hitems]
      rfl
    · rcases hanswer with ⟨e, rfl⟩ | rfl
      · exact .inl ⟨e, (hfails e).mp rfl, rfl⟩
      · exact .inr ⟨fun e => (not_congr (hfails e)).mp nofun, rfl, rfl, hsub, heq⟩

end

/-! ## A filter on the status -/

def web_pod (phase : String) : DynamicObject where
  types := none
  metadata := { name := some "web-0", namespace_ := some "shop" }
  data := .object [("status", .object [("phase", .string phase)])]

/-- A server with one pod that runs, and with no more than that on a page. -/
def one_pod : ListServer Unit where
  list := fun _ _ _ => .ok [web_pod "Running"]
  list_metadata := fun _ _ _ _ _ _ => .ok ([web_pod "Running"], none)

def no_files : System where
  read_dir := fun _ => []
  read_to_string := fun _ => .error "No such file or directory"
  yaml := fun _ => .error "not asked for"
  refusal := fun _ => "not asked for"
  debug := fun s => s

def one_pod_env : Env Unit where
  server := one_pod
  sys := no_files
  display := Time.text
  refusal := fun _ => "not asked for"

def running_pods : Options := { filter := some "running" }

theorem one_pod_is_paged : Serves (one_pod.list_metadata ⟨"", "v1", "Pod"⟩ none none 500)
    [web_pod "Running"] := by
  refine ⟨fun _ => [web_pod "Running"], fun _ => 0, rfl, ?_, ?_⟩
  · intro call token page h
    cases h
    rfl
  · intro call token page next h
    cases h

theorem one_pod_line :
    item_lines mergeSort one_pod_env ⟨"", "v1", "Pod"⟩ running_pods
      ([web_pod "Running"].map fun obj => summary_of obj ⟨"", "v1", "Pod"⟩) =
        ["shop\tPod\tweb-0\t"] := by
  decide +kernel

/-- The filter finds the pod that runs, and does not find it in the metadata list. -/
theorem a_running_pod_is_not_found :
    ∃ lines, lines ≠ [] ∧ (∀ fuel, @print_get _ mergeSort one_pod_env ⟨"", "v1", "Pod"⟩
        running_pods no_doubles ascii_alphanumeric fuel = some (Output.lines lines)) ∧
      ∃ least, ∀ fuel, least ≤ fuel → ∃ out,
        @print_get _ mergeSort one_pod_env ⟨"", "v1", "Pod"⟩
          { running_pods with metadata := true } no_doubles ascii_alphanumeric fuel = some out ∧
            out.result = .ok () ∧ out.stdout = [] := by
  obtain ⟨lines, hplain, least, hmeta⟩ :=
    @the_metadata_list_prints_the_list _ mergeSort one_pod_env ⟨"", "v1", "Pod"⟩ running_pods
      no_doubles ascii_alphanumeric [web_pod "Running"] rfl rfl one_pod_is_paged
  have hlines : lines = ["shop\tPod\tweb-0\t"] := by
    have hout := Option.some.inj (hplain 0)
    rw [← one_pod_line]
    exact (congrArg Output.stdout hout).symm
  have hstatus : ¬∀ n, needle running_pods = some n → ∀ obj ∈ [web_pod "Running"],
      Found one_pod_env n (summary_of obj ⟨"", "v1", "Pod"⟩) →
        Found one_pod_env n (store.summary_of_meta obj ⟨"", "v1", "Pod"⟩) := by
    intro h
    have hfound := h "running" (by decide +kernel) _ List.mem_cons_self
    unfold Found at hfound
    revert hfound
    decide +kernel
  refine ⟨lines, by simp [hlines], hplain, least, fun fuel hfuel => ?_⟩
  obtain ⟨out, hout, ⟨e, hfails, -⟩ | ⟨-, hok, -, hsub, heq⟩⟩ := hmeta fuel hfuel
  · exact absurd hfails (not_fails_of_last rfl)
  · refine ⟨out, hout, hok, ?_⟩
    rw [hlines] at hsub heq
    rcases List.sublist_cons_iff.mp hsub with hnil | ⟨rest, hrest, hnil⟩
    · exact List.sublist_nil.mp hnil
    · rw [List.sublist_nil.mp hnil] at hrest
      exact absurd (heq.mp hrest) hstatus

end kaptein_cli.get
