-- Processes that keep their named forwards in one file (`portforward.rs`). Each of them loads the
-- file, changes what it loaded and writes all of it, and nothing locks the file in between.
import Kaptein.ForwardStore
import Kaptein.Lib.ReadModifyWrite

open read_modify_write

namespace kaptein_core.portforward.forward_manager

variable {ι : Type} [DecidableEq ι] (codec : SpecCodec) (path : String) (ops : ι → Operation)

/-- The file, and the manager of each process that loaded it. -/
structure Processes (ι : Type) where
  file : Option String
  managers : ι → Option NamedForwardManager

/-- A process loads the file, or does its one operation, whose write goes through. A process whose
write is refused is one that only loads. -/
def Processes.access (s : Processes ι) : Access ι → Processes ι
  | .Load i => { s with managers := Function.update s.managers i (load codec (some path) s.file) }
  | .Save i =>
    match s.managers i with
    | some manager => { s with file := ((ops i).run codec manager .Writes s.file).2.2 }
    | none => s

def Processes.run (s : Processes ι) (accesses : List (Access ι)) : Processes ι :=
  accesses.foldl (Processes.access codec path ops) s

def Processes.start (file : Option String) : Processes ι := ⟨file, fun _ => none⟩

/-- What is loaded of the file. -/
def loaded (file : Option String) : ForwardManager := (load codec (some path) file).specs

theorem sorted_loaded (file : Option String) : Sorted (loaded codec path file) :=
  (Kept.start codec path file).sorted

/-- The processes are commands on one cell, which is what is loaded of the file. -/
structure OneCell (s : Processes ι) (cell : Shared ι ForwardManager) : Prop where
  content : loaded codec path s.file = cell.content
  held : ∀ i, (s.managers i).map NamedForwardManager.specs = cell.held i
  paths : ∀ i manager, s.managers i = some manager → manager.path = some path
  sorted : ∀ i manager, s.managers i = some manager → Sorted manager.specs

variable {codec path ops}

theorem OneCell.access {s : Processes ι} {cell : Shared ι ForwardManager}
    (h : OneCell codec path s cell)
    (hprints : ∀ i specs, cell.held i = some specs →
      ∃ json, codec.to_string_pretty ((ops i).change specs) = .ok json) (access : Access ι) :
    OneCell codec path (s.access codec path ops access)
      (cell.access (fun i => (ops i).change) access) := by
  cases access with
  | Load i =>
    refine ⟨h.content, ?_, ?_, ?_⟩
    · intro j
      by_cases hj : j = i
      · subst hj
        simp only [Processes.access, Shared.access, Function.update_self, ← h.content]
        rfl
      · simp only [Processes.access, Shared.access, Function.update_of_ne hj]
        exact h.held j
    · intro j manager hmanager
      by_cases hj : j = i
      · subst hj
        simp only [Processes.access, Function.update_self, Option.some.injEq] at hmanager
        exact hmanager ▸ rfl
      · simp only [Processes.access, Function.update_of_ne hj] at hmanager
        exact h.paths j manager hmanager
    · intro j manager hmanager
      by_cases hj : j = i
      · subst hj
        simp only [Processes.access, Function.update_self, Option.some.injEq] at hmanager
        exact hmanager ▸ sorted_loaded codec path s.file
      · simp only [Processes.access, Function.update_of_ne hj] at hmanager
        exact h.sorted j manager hmanager
  | Save i =>
    have hheld := h.held i
    cases hmanager : s.managers i with
    | none =>
      rw [hmanager] at hheld
      simp only [Processes.access, Shared.access, hmanager, ← hheld, Option.map_none]
      exact h
    | some manager =>
      rw [hmanager, Option.map_some] at hheld
      obtain ⟨json, hjson⟩ := hprints i manager.specs hheld.symm
      have hsorted := (h.sorted i manager hmanager).change (ops i)
      have hfile : ((ops i).run codec manager .Writes s.file).2.2 = some json := by
        obtain ⟨json', hjson', hpersist⟩ := @persist_written codec
          { manager with specs := (ops i).change manager.specs } path .Writes s.file
          (h.paths i manager hmanager) ⟨rfl, json, hjson⟩
        rw [Operation.run, hpersist]
        exact congrArg some (Except.ok.inj (hjson'.symm.trans hjson))
      simp only [Processes.access, Shared.access, hmanager, ← hheld, hfile]
      exact ⟨load_written codec hsorted path hjson, h.held, h.paths, h.sorted⟩

/-! ## The file after a schedule -/

omit [DecidableEq ι] in
theorem OneCell.start (file : Option String) :
    OneCell codec path (Processes.start file : Processes ι)
      (Shared.start (loaded codec path file)) where
  content := rfl
  held _ := rfl
  paths _ _ h := by cases h
  sorted _ _ h := by cases h

theorem OneCell.run (file : Option String)
    (hprints : ∀ done : List ι, ∃ json,
      codec.to_string_pretty
        (changed (fun i => (ops i).change) (loaded codec path file) done) = .ok json)
    (accesses : List (Access ι)) :
    OneCell codec path ((Processes.start file).run codec path ops accesses)
      ((Shared.start (loaded codec path file)).run (fun i => (ops i).change) accesses) := by
  induction accesses using List.reverseRecOn with
  | nil => exact OneCell.start file
  | append_singleton accesses access ih =>
    rw [Processes.run, List.foldl_append, run_snoc]
    refine ih.access ?_ access
    intro i specs hspecs
    rw [run_eq] at hspecs
    -- What a process holds is the first list with the changes of a chain, and its own is one more.
    obtain ⟨done, -, rfl⟩ := Option.map_eq_some_iff.mp hspecs
    obtain ⟨json, hjson⟩ := hprints (done ++ [i])
    rw [changed, List.foldl_append] at hjson
    exact ⟨json, hjson⟩

theorem mem_upsert_of_mem {spec s : ForwardSpec} {specs : ForwardManager} (h : s ∈ specs)
    (hname : s.name ≠ spec.name) : s ∈ specs.upsert spec := by
  induction specs with
  | nil => exact (List.not_mem_nil h).elim
  | cons t specs ih =>
    unfold ForwardManager.upsert
    split
    · exact List.mem_cons_of_mem _ h
    · split
      · rename_i heq
        rcases List.mem_cons.mp h with rfl | h
        · exact absurd heq.symm hname
        · exact List.mem_cons_of_mem _ h
      · rcases List.mem_cons.mp h with rfl | h
        · exact List.mem_cons_self
        · exact List.mem_cons_of_mem _ (ih h)

/-- Specs with names of their own stay beside one another. -/
theorem mem_upserts {specs : ι → ForwardSpec}
    (hnames : ∀ i j, (specs i).name = (specs j).name → i = j) (done : List ι)
    {first : ForwardManager} (hnew : ∀ i, specs i ∉ first) (i : ι) :
    specs i ∈ changed (fun i => (Operation.Upsert (specs i)).change) first done ↔ i ∈ done := by
  induction done using List.reverseRecOn with
  | nil => exact iff_of_false (hnew i) List.not_mem_nil
  | append_singleton done j ih =>
    rw [changed, List.foldl_append, List.mem_append, List.mem_singleton, ← ih]
    constructor
    · intro h
      rcases mem_upsert h with h | h
      · exact .inr (hnames i j (congrArg ForwardSpec.name h))
      · exact .inl h
    · intro h
      by_cases hij : i = j
      · exact hij ▸ mem_upsert_self _ _
      · exact mem_upsert_of_mem (h.resolve_right hij) fun hname => hij (hnames i j hname)

/-- The file holds the changes of some of the processes, one after another, and of all that saved
exactly where none of them saves between the load and the save of another. -/
theorem the_file_of_all (file : Option String)
    (hprints : ∀ done : List ι, ∃ json,
      codec.to_string_pretty
        (changed (fun i => (ops i).change) (loaded codec path file) done) = .ok json)
    (accesses : List (Access ι)) (hOnce : Once accesses) :
    loaded codec path ((Processes.start file).run codec path ops accesses).file =
        changed (fun i => (ops i).change) (loaded codec path file) (chain accesses) ∧
      ((∀ i, .Save i ∈ accesses → i ∈ chain accesses) ↔ NoOverlap accesses) ∧
      ∀ specs : ι → ForwardSpec, (∀ i, ops i = .Upsert (specs i)) →
        (∀ i j, (specs i).name = (specs j).name → i = j) →
        (∀ i, specs i ∉ loaded codec path file) →
        ((∀ i, .Save i ∈ accesses → specs i ∈
            loaded codec path ((Processes.start file).run codec path ops accesses).file) ↔
          NoOverlap accesses) := by
  have hfile : loaded codec path ((Processes.start file).run codec path ops accesses).file =
      changed (fun i => (ops i).change) (loaded codec path file) (chain accesses) := by
    rw [(OneCell.run file hprints accesses).content, run_eq]
  refine ⟨hfile, allKept_iff hOnce, ?_⟩
  intro specs hops hnames hnew
  rw [hfile, ← allKept_iff hOnce]
  obtain rfl : ops = fun i => .Upsert (specs i) := funext hops
  exact forall_congr' fun i => imp_congr_right fun _ => mem_upserts hnames _ hnew i

/-! ## Two forwards at once -/

def api : ForwardSpec :=
  { name := "api", namespace_ := "shop", pod := "api-0", target_port := 8000, local_port := 8000 }

/-- One spec as the pretty printer gives it, where no text has to be escaped. -/
def spec_text (s : ForwardSpec) : String :=
  "  \x7b\n    \"name\": \"" ++ s.name ++ "\",\n    \"namespace\": \"" ++ s.namespace_ ++
    "\",\n    \"pod\": \"" ++ s.pod ++ "\",\n    \"target_port\": " ++ toString s.target_port ++
    ",\n    \"local_port\": " ++ toString s.local_port ++ "\n  \x7d"

def specs_text (specs : List ForwardSpec) : String :=
  if specs = [] then "[]" else "[\n" ++ ",\n".intercalate (specs.map spec_text) ++ "\n]"

/-- The lists of the two forwards. -/
def two_lists : List ForwardManager := [[], [api], [web], [api, web]]

/-- The codec on the lists of the two forwards. -/
def two_codec : SpecCodec where
  to_string_pretty specs :=
    if specs ∈ two_lists then .ok (specs_text specs) else .error "not asked for"
  from_str text := two_lists.find? fun specs => specs_text specs = text
  reads_back := by
    intro specs text h
    have hfinds : ∀ specs ∈ two_lists,
        (two_lists.find? fun specs' => specs_text specs' = specs_text specs) = some specs := by
      decide +kernel
    split at h
    · rename_i hmem
      cases h
      exact hfinds specs hmem
    · cases h

def two_specs (first : Bool) : ForwardSpec := if first then web else api

/-- Both load before either saves. -/
def race : List (Access Bool) := [.Load true, .Load false, .Save true, .Save false]

theorem changed_two (done : List Bool) :
    changed (fun b => (Operation.Upsert (two_specs b)).change) [] done ∈ two_lists := by
  have hstep : ∀ specs ∈ two_lists, ∀ b,
      (Operation.Upsert (two_specs b)).change specs ∈ two_lists := by decide +kernel
  induction done using List.reverseRecOn with
  | nil => exact List.mem_cons_self
  | append_singleton done b ih =>
    rw [changed, List.foldl_append]
    exact hstep _ ih b

theorem once_race : Once race where
  loads := by decide
  saves := by decide
  loaded := by
    intro before i after h
    match before with
    | [] => cases h
    | [_] => cases h
    | a :: b :: before =>
      injection h with ha h
      injection h with hb _
      cases i <;> simp [← ha, ← hb]

theorem a_forward_that_was_saved_is_gone :
    ¬∀ i, .Save i ∈ race → two_specs i ∈ loaded two_codec "forwards.json"
      ((Processes.start none).run two_codec "forwards.json"
        (fun i => .Upsert (two_specs i)) race).file := by
  have hprints : ∀ done : List Bool, ∃ json, two_codec.to_string_pretty
      (changed (fun b => (Operation.Upsert (two_specs b)).change)
        (loaded two_codec "forwards.json" none) done) = .ok json :=
    fun done => ⟨_, if_pos (changed_two done)⟩
  rw [(the_file_of_all none hprints race once_race).2.2 two_specs (fun _ => rfl) (by decide)
    (by decide)]
  intro h
  exact h [.Load true] false [.Save true] [] rfl true List.mem_cons_self

end kaptein_core.portforward.forward_manager
