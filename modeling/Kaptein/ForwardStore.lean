-- The file behind the named forwards (`portforward.rs`). Each operation changes the
-- specs in memory and then writes them all, and any of the writes may fail.
import Mathlib.Data.String.Basic
import Kaptein.Lib.Runs
import Kaptein.Writes

open runs

namespace kaptein_core.portforward.forward_manager

/-! ## The manager -/

/-- `serde_json` at a list of specs. -/
structure SpecCodec where
  to_string_pretty : List ForwardSpec → Except String String
  from_str : String → Option (List ForwardSpec)
  reads_back : ∀ specs text, to_string_pretty specs = .ok text → from_str text = some specs

/-- `ForwardManager`: the specs under their names, and the path of their file. -/
structure NamedForwardManager where
  specs : ForwardManager
  path : Option String

/-- What comes of the directory and of the write of one `persist`. A write that fails
leaves any text in the file, or none. -/
inductive Disk where
  | Writes
  | NoDirectory (error : String)
  | Fails (error : String) (left : Option String)

variable (codec : SpecCodec)

/-- The text of the file is `none` where there is no file that can be read. -/
def load (path file : Option String) : NamedForwardManager where
  path := path
  specs :=
    match path, file.bind codec.from_str with
    | some _, some specs => specs.foldl (fun manager spec => manager.upsert spec) []
    | _, _ => []

def list (manager : NamedForwardManager) : List ForwardSpec := manager.specs

def persist (manager : NamedForwardManager) (disk : Disk) (file : Option String) :
    Except String Unit × Option String :=
  match manager.path with
  | none => (.ok (), file)
  | some _ =>
    match disk with
    | .NoDirectory e => (.error e, file)
    | disk =>
      match codec.to_string_pretty manager.specs, disk with
      | .error e, _ => (.error e, file)
      | .ok _, .Fails e left => (.error e, left)
      | .ok json, _ => (.ok (), some json)

inductive Operation where
  | Upsert (spec : ForwardSpec)
  | Remove (name : String)

/-- The change of an operation in memory. -/
def Operation.change : Operation → ForwardManager → ForwardManager
  | .Upsert spec, specs => specs.upsert spec
  | .Remove name, specs => specs.remove name

/-- `upsert` and `remove`: the change in memory, then the file. -/
def Operation.run (op : Operation) (manager : NamedForwardManager) (disk : Disk)
    (file : Option String) : Except String Unit × NamedForwardManager × Option String :=
  let manager := { manager with specs := op.change manager.specs }
  let (answer, file) := persist codec manager disk file
  (answer, manager, file)

/-! ## Runs -/

/-- The manager and its file, and the last operation as the caller saw it: the list
before the call and the answer. -/
structure Session where
  manager : NamedForwardManager
  file : Option String
  before : List ForwardSpec
  answer : Except String Unit

def step (s : Session) (a : Operation × Disk) : Option Session :=
  let (answer, manager, file) := a.1.run codec s.manager a.2 s.file
  some { manager, file, before := list s.manager, answer }

/-- A manager that was loaded from a path, before the first call. -/
def Session.start (path : String) (file : Option String) : Session where
  manager := load codec (some path) file
  file := file
  before := list (load codec (some path) file)
  answer := .ok ()

/-- After `Ok` the file holds the list, and after `Err` the list is as it was. -/
def AsTold (s : Session) : Prop :=
  match s.answer with
  | .ok () => list (load codec s.manager.path s.file) = list s.manager
  | .error _ => list s.manager = s.before

/-- The file is written with the specs after the change. -/
def Written (specs : ForwardManager) (disk : Disk) : Prop :=
  disk = .Writes ∧ ∃ json, codec.to_string_pretty specs = .ok json

/-- The operation has nothing to do: the spec is there, or the name is not. -/
def Operation.Idle : Operation → ForwardManager → Prop
  | .Upsert spec, specs => spec ∈ specs
  | .Remove name, specs => ∀ s ∈ specs, s.name ≠ name

/-- The file is written, or there was nothing to change. -/
def WrittenOrIdle (s : Session) (a : Operation × Disk) : Prop :=
  Written codec (a.1.change s.manager.specs) a.2 ∨ a.1.Idle s.manager.specs

/-! ## The order of the names -/

def Sorted (specs : ForwardManager) : Prop := specs.Pairwise fun s t => s.name < t.name

theorem mem_upsert {spec s : ForwardSpec} {specs : ForwardManager} (h : s ∈ specs.upsert spec) :
    s = spec ∨ s ∈ specs := by
  induction specs with
  | nil => exact .inl (List.mem_singleton.mp h)
  | cons t specs ih =>
    unfold ForwardManager.upsert at h
    split at h
    · exact List.mem_cons.mp h
    · split at h
      · rcases List.mem_cons.mp h with h | h
        · exact .inl h
        · exact .inr (List.mem_cons_of_mem _ h)
      · rcases List.mem_cons.mp h with h | h
        · exact .inr (h ▸ List.mem_cons_self)
        · rcases ih h with h | h
          · exact .inl h
          · exact .inr (List.mem_cons_of_mem _ h)

theorem mem_upsert_self (spec : ForwardSpec) (specs : ForwardManager) :
    spec ∈ specs.upsert spec := by
  induction specs with
  | nil => exact List.mem_singleton_self spec
  | cons t specs ih =>
    unfold ForwardManager.upsert
    split
    · exact List.mem_cons_self
    · split
      · exact List.mem_cons_self
      · exact List.mem_cons_of_mem _ ih

theorem Sorted.upsert {specs : ForwardManager} (h : Sorted specs) (spec : ForwardSpec) :
    Sorted (specs.upsert spec) := by
  induction specs with
  | nil => exact List.pairwise_singleton _ _
  | cons t specs ih =>
    obtain ⟨ht, hrest⟩ := List.pairwise_cons.mp h
    unfold ForwardManager.upsert
    split
    · rename_i hlt
      refine List.pairwise_cons.mpr ⟨?_, h⟩
      intro s hs
      rcases List.mem_cons.mp hs with rfl | hs
      · exact hlt
      · exact lt_trans hlt (ht s hs)
    · split
      · rename_i heq
        exact List.pairwise_cons.mpr ⟨fun s hs => heq ▸ ht s hs, hrest⟩
      · rename_i hlt hne
        refine List.pairwise_cons.mpr ⟨?_, ih hrest⟩
        intro s hs
        rcases mem_upsert hs with rfl | hs
        · exact lt_of_le_of_ne (not_lt.mp hlt) (Ne.symm hne)
        · exact ht s hs

theorem Sorted.remove {specs : ForwardManager} (h : Sorted specs) (name : String) :
    Sorted (specs.remove name) :=
  h.filter _

/-- A spec behind all names goes to the end. -/
theorem upsert_last (spec : ForwardSpec) (specs : ForwardManager)
    (h : ∀ s ∈ specs, s.name < spec.name) : specs.upsert spec = specs ++ [spec] := by
  induction specs with
  | nil => rfl
  | cons t specs ih =>
    have ht := h t List.mem_cons_self
    rw [ForwardManager.upsert, if_neg (lt_asymm ht), if_neg (Ne.symm (ne_of_lt ht)),
      ih fun s hs => h s (List.mem_cons_of_mem _ hs)]
    rfl

/-- Specs in order are loaded as they are. -/
theorem foldl_upsert_sorted (specs loaded : ForwardManager) (h : Sorted (loaded ++ specs)) :
    specs.foldl (fun manager spec => ForwardManager.upsert spec manager) loaded =
      loaded ++ specs := by
  induction specs generalizing loaded with
  | nil => exact (List.append_nil loaded).symm
  | cons s specs ih =>
    have hs : ∀ t ∈ loaded, t.name < s.name :=
      fun t ht => (List.pairwise_append.mp h).2.2 t ht s List.mem_cons_self
    rw [List.foldl_cons, upsert_last s loaded hs, ih, List.append_assoc, List.singleton_append]
    rw [List.append_assoc]
    exact h

theorem sorted_foldl_upsert (specs loaded : ForwardManager) (h : Sorted loaded) :
    Sorted (specs.foldl (fun manager spec => ForwardManager.upsert spec manager) loaded) := by
  induction specs generalizing loaded with
  | nil => exact h
  | cons s specs ih => exact ih _ (h.upsert s)

/-- An operation changes nothing exactly when it has nothing to do. -/
theorem change_eq_self {specs : ForwardManager} (h : Sorted specs) (op : Operation) :
    op.change specs = specs ↔ op.Idle specs := by
  cases op with
  | Upsert spec =>
    constructor
    · intro heq
      have hchange : specs.upsert spec = specs := heq
      have hmem := mem_upsert_self spec specs
      rw [hchange] at hmem
      exact hmem
    · intro hmem
      simp only [Operation.Idle, Operation.change] at hmem ⊢
      induction specs with
      | nil => cases hmem
      | cons t specs ih =>
        obtain ⟨ht, hrest⟩ := List.pairwise_cons.mp h
        rcases List.mem_cons.mp hmem with rfl | hmem
        · rw [ForwardManager.upsert, if_neg (lt_irrefl _), if_pos rfl]
        · have hlt := ht spec hmem
          rw [ForwardManager.upsert, if_neg (lt_asymm hlt), if_neg (Ne.symm (ne_of_lt hlt)),
            ih hrest hmem]
  | Remove name =>
    simp [Operation.change, Operation.Idle, ForwardManager.remove]

theorem Sorted.change {specs : ForwardManager} (h : Sorted specs) (op : Operation) :
    Sorted (op.change specs) := by
  cases op with
  | Upsert spec => exact h.upsert spec
  | Remove name => exact h.remove name

/-! ## What a call answers -/

/-- A written list is loaded as it is. -/
theorem load_written {specs : ForwardManager} (h : Sorted specs) (path : String) {json : String}
    (hjson : codec.to_string_pretty specs = .ok json) :
    (load codec (some path) (some json)).specs = specs := by
  unfold load
  rw [Option.bind_some, codec.reads_back specs json hjson]
  exact foldl_upsert_sorted specs [] h

theorem persist_written {manager : NamedForwardManager} {path : String} {disk : Disk}
    {file : Option String} (hpath : manager.path = some path)
    (h : Written codec manager.specs disk) :
    ∃ json, codec.to_string_pretty manager.specs = .ok json ∧
      persist codec manager disk file = (.ok (), some json) := by
  obtain ⟨rfl, json, hjson⟩ := h
  refine ⟨json, hjson, ?_⟩
  simp only [persist, hpath, hjson]

theorem persist_failed {manager : NamedForwardManager} {path : String} {disk : Disk}
    {file : Option String} (hpath : manager.path = some path)
    (h : ¬Written codec manager.specs disk) :
    ∃ e, (persist codec manager disk file).1 = .error e := by
  unfold persist
  rw [hpath]
  cases disk with
  | NoDirectory e => exact ⟨e, rfl⟩
  | Fails e left =>
    cases codec.to_string_pretty manager.specs with
    | error e' => exact ⟨e', rfl⟩
    | ok json => exact ⟨e, rfl⟩
  | Writes =>
    cases hjson : codec.to_string_pretty manager.specs with
    | error e => exact ⟨e, rfl⟩
    | ok json => exact absurd ⟨rfl, json, hjson⟩ h

/-- The state after a call: the list is the changed one, and the file keeps it or the call
failed. -/
theorem step_cases {s t : Session} {op : Operation} {disk : Disk} {path : String}
    (hpath : s.manager.path = some path) (h : step codec s (op, disk) = some t) :
    t.manager = { s.manager with specs := op.change s.manager.specs } ∧
      t.before = s.manager.specs ∧
      ((∃ json, codec.to_string_pretty t.manager.specs = .ok json ∧ t.answer = .ok () ∧
          t.file = some json ∧ Written codec t.manager.specs disk) ∨
        (∃ e, t.answer = .error e) ∧ ¬Written codec t.manager.specs disk) := by
  simp only [step, Operation.run, Option.some.injEq] at h
  subst h
  refine ⟨rfl, rfl, ?_⟩
  by_cases hw : Written codec (op.change s.manager.specs) disk
  · obtain ⟨json, hjson, hpersist⟩ := @persist_written codec
      { s.manager with specs := op.change s.manager.specs } path disk s.file hpath hw
    exact .inl ⟨json, hjson, by rw [hpersist], by rw [hpersist], hw⟩
  · have hfailed := @persist_failed codec
      { s.manager with specs := op.change s.manager.specs } path disk s.file hpath hw
    exact .inr ⟨hfailed, hw⟩

/-- The invariant of the runs of a manager with a path. -/
structure Kept (s : Session) : Prop where
  path : ∃ path, s.manager.path = some path
  sorted : Sorted s.manager.specs
  told : AsTold codec s

theorem Kept.start (path : String) (file : Option String) :
    Kept codec (Session.start codec path file) where
  path := ⟨path, rfl⟩
  sorted := by
    simp only [Session.start, load]
    cases file.bind codec.from_str with
    | none => exact List.Pairwise.nil
    | some specs => exact sorted_foldl_upsert specs [] List.Pairwise.nil
  told := rfl

theorem Kept.step {s t : Session} {a : Operation × Disk} (h : Kept codec s)
    (hguard : WrittenOrIdle codec s a) (hstep : step codec s a = some t) : Kept codec t := by
  obtain ⟨op, disk⟩ := a
  obtain ⟨path, hpath⟩ := h.path
  obtain ⟨hmanager, hbefore, hanswer⟩ := step_cases codec hpath hstep
  have hpath' : t.manager.path = some path := by rw [hmanager, ← hpath]
  have hsorted : Sorted t.manager.specs := by
    rw [hmanager]
    exact h.sorted.change op
  refine ⟨⟨path, hpath'⟩, hsorted, ?_⟩
  unfold AsTold
  rcases hanswer with ⟨json, hjson, hok, hfile, _⟩ | ⟨⟨e, he⟩, hno⟩
  · rw [hok, hpath', hfile]
    exact load_written codec hsorted path hjson
  · rw [he]
    rcases hguard with hw | hidle
    · rw [hmanager] at hno
      exact absurd hw hno
    · rw [hbefore, hmanager]
      exact (change_eq_self h.sorted op).mpr hidle

theorem broken_step {s t : Session} {a : Operation × Disk} (h : Kept codec s)
    (hguard : ¬WrittenOrIdle codec s a) (hstep : step codec s a = some t) : ¬AsTold codec t := by
  obtain ⟨op, disk⟩ := a
  obtain ⟨path, hpath⟩ := h.path
  obtain ⟨hmanager, hbefore, hanswer⟩ := step_cases codec hpath hstep
  unfold WrittenOrIdle at hguard
  rw [not_or] at hguard
  rcases hanswer with ⟨_, _, _, _, hw⟩ | ⟨⟨e, he⟩, _⟩
  · rw [hmanager] at hw
    exact absurd hw hguard.1
  · intro htold
    unfold AsTold at htold
    rw [he, hbefore, hmanager] at htold
    exact hguard.2 ((change_eq_self h.sorted op).mp htold)

/-- In every run over every file, the answers agree with memory and disk exactly when each
call writes its file or had nothing to change. -/
theorem calls_are_as_told_iff (path : String) (file : Option String)
    (calls : List (Operation × Disk)) :
    Always (step codec) (AsTold codec) (Session.start codec path file) calls ↔
      Guarded (step codec) (WrittenOrIdle codec) (Session.start codec path file) calls :=
  @always_iff_guarded _ _ (step codec) (Kept codec) (AsTold codec) (WrittenOrIdle codec)
    (fun _ => True) (fun _ h => h.told) (fun _ _ _ _ h hg ht => h.step codec hg ht)
    (fun _ _ _ _ h hg ht => broken_step codec h hg ht) _ _ (Kept.start codec path file)
    (fun _ _ => trivial)

def web : ForwardSpec :=
  { name := "web", namespace_ := "shop", pod := "web-0", target_port := 80, local_port := 8080 }

/-- The text of `web`, as the pretty printer gives it. -/
def web_text : String :=
  "[\n  \x7b\n    \"name\": \"web\",\n    \"namespace\": \"shop\",\n    \"pod\": \"web-0\",\n" ++
    "    \"target_port\": 80,\n    \"local_port\": 8080\n  \x7d\n]"

/-- The codec on the lists without a spec and with `web`. -/
def web_codec : SpecCodec where
  to_string_pretty specs :=
    if specs = [] then .ok "[]" else if specs = [web] then .ok web_text else .error "not asked for"
  from_str text := if text = "[]" then some [] else if text = web_text then some [web] else none
  reads_back := by
    intro specs text h
    have hne : web_text ≠ "[]" := by decide +kernel
    split at h
    · rename_i hnil
      cases h
      rw [hnil, if_pos rfl]
    · split at h
      · rename_i hweb
        cases h
        rw [hweb, if_neg hne, if_pos rfl]
      · cases h

theorem a_failed_write_keeps_the_spec :
    ¬Always (step web_codec) (AsTold web_codec) (Session.start web_codec "forwards.json" none)
      [(.Upsert web, .Fails "No space left on device" (some ""))] := by
  intro h
  have htold : AsTold web_codec _ := h.2 _ rfl
  have hlist : [web] = [] := htold
  cases hlist

end kaptein_core.portforward.forward_manager
