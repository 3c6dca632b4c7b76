-- The log lines of pods (`describe.rs`) and what `kaptein logs` prints of them.
-- A line is redacted before it leaves the core; the filter of the single pod
-- sees the redacted line, and the filter of a selector sees the line itself.
import Kaptein.LogParse
import Kaptein.RedactLine

open rust_str serde_json kaptein_core

namespace kaptein_core.describe

/-! ## The core functions -/

/-- What the API server answers about pods and their logs. A pod is the names of its
containers. -/
structure LogServer where
  get_pod : (namespace_ name : String) → Except String (List String)
  list_pods : (namespace_ : String) → (selector : Option String) →
    Except String (List (String × List String))
  logs : (namespace_ pod container : String) → (tail_lines : Int) → Except String String
  log_stream : (namespace_ pod : String) → (tail_lines : Int) →
    Except String (List (Except String String))

/-- How a run ends early: with an error, or with the panic of the redactor. -/
inductive Fault where
  | error (msg : String)
  | panic
  deriving DecidableEq

structure LogLine where
  pod : String
  namespace_ : String
  container : String
  line : String
  deriving DecidableEq

def asked {α : Type} (answer : Except String α) : Except Fault α := answer.mapError Fault.error

section
variable (word : Char → Bool)

def redacted (line : String) : Except Fault String :=
  match redact.redact_line word line with
  | some line => .ok line
  | none => .error .panic

/-- The lines of one container. -/
def container_logs (server : LogServer) (namespace_ name cname : String) (tail_lines : Int) :
    Except Fault (List (String × String)) := do
  let logs ← asked (server.logs namespace_ name cname tail_lines)
  (lines logs).mapM fun line => do return (cname, ← redacted word line)

def pod_logs (server : LogServer) (namespace_ name : String) (tail_lines : Int) :
    Except Fault (List (String × String)) := do
  let container_names ← asked (server.get_pod namespace_ name)
  let out ← container_names.mapM fun cname =>
    container_logs word server namespace_ name cname tail_lines
  return out.flatten

/-- The filter of a command: no filter lets every line pass. -/
def passes (re : Option (String → Bool)) (line : String) : Bool := re.all fun r => r line

/-- `regex::Regex::new` of a filter, if there is one. -/
def compile (new_regex : String → Except String (String → Bool)) :
    Option String → Except Fault (Option (String → Bool))
  | none => .ok none
  | some pattern => (asked (new_regex pattern)).map some

/-- The lines of one container that pass. The filter is asked about the line as the server
holds it. -/
def matching_logs (re : Option (String → Bool)) (server : LogServer)
    (namespace_ pod container : String) (tail_lines : Int) : Except Fault (List LogLine) := do
  let logs ← asked (server.logs namespace_ pod container tail_lines)
  ((lines logs).filter (passes re)).mapM fun line => do
    return { pod, namespace_, container, line := ← redacted word line }

def multi_pod_logs (new_regex : String → Except String (String → Bool)) (server : LogServer)
    (namespace_ : String) (label_selector regex_filter : Option String) (tail_lines : Int) :
    Except Fault (List LogLine) := do
  let pods ← asked (server.list_pods namespace_ label_selector)
  let re ← compile new_regex regex_filter
  let out ← pods.mapM fun pod => do
    let out ← pod.2.mapM fun container =>
      matching_logs word re server namespace_ pod.1 container tail_lines
    return out.flatten
  return out.flatten

/-- The items of the stream. A stream that cannot be opened has one item, the error. -/
def follow_logs (server : LogServer) (namespace_ name : String) (tail_lines : Int) :
    List (Except Fault (String × String)) :=
  match server.log_stream namespace_ name tail_lines with
  | .error e => [.error (.error e)]
  | .ok items => items.map fun item => do return ("", ← redacted word (← asked item))

end

end kaptein_core.describe

namespace kaptein_cli

open kaptein_core.describe kaptein_viewmodel.logparse

/-! ## The command -/

/-- What a command prints, and how it ends. -/
structure Output where
  stdout : List String
  stderr : List String
  result : Except Fault Unit

def Output.lines (stdout : List String) : Output where
  stdout := stdout
  stderr := []
  result := .ok ()

/-- The output of a command whose lines may be missing. -/
def Output.of {α : Type} (r : Except Fault α) (show_ : α → Output) : Output :=
  match r with
  | .ok a => show_ a
  | .error fault => { stdout := [], stderr := [], result := .error fault }

def cell_text [FloatDisplay] : Option LogCell → String
  | some (.Text s) => s
  | some (.Number n) => toString n
  | some (.Float f) => FloatDisplay.display f
  | some (.Bool b) => toString b
  | some .Null => "null"
  | none => ""

/-- The table of `--json`: a header, the cells of each structured line, and the text of
any other. -/
def json_table [FloatText] [FloatRead] [FloatDisplay] (raw_lines : List String) : List String :=
  let parsed := parse_log_stream raw_lines
  let columns := infer_columns parsed
  if columns.isEmpty then ["(no JSON log lines found)"]
  else
    "\t".intercalate columns :: parsed.map fun line =>
      if line.columns.entries.isEmpty then line.raw
      else "\t".intercalate (columns.map fun c => cell_text (line.columns.get c))

/-- The loop over the stream: an error ends it and is only reported, a panic ends the
whole command. -/
def print_stream (re : Option (String → Bool)) : List (Except Fault (String × String)) → Output
  | [] => Output.lines []
  | .ok (_, line) :: items =>
    let out := print_stream re items
    if passes re line then { out with stdout := line :: out.stdout } else out
  | .error (.error e) :: _ => { stdout := [], stderr := ["error: " ++ e], result := .ok () }
  | .error .panic :: _ => { stdout := [], stderr := [], result := .error .panic }

section
variable [FloatText] [FloatRead] [FloatDisplay] (word : Char → Bool)

/-- `kaptein logs`, on the server of its context. -/
def print_logs (new_regex : String → Except String (String → Bool)) (server : LogServer)
    (name : Option String) (namespace_ : String) (selector regex : Option String) (tail : Int)
    (follow json : Bool) : Output :=
  match name, json with
  | some pod_name, true =>
    Output.of (compile new_regex regex) fun re =>
      Output.of (pod_logs word server namespace_ pod_name tail) fun logs =>
        Output.lines (json_table ((logs.map Prod.snd).filter (passes re)))
  | none, true =>
    Output.of (compile new_regex regex) fun _ =>
      Output.of (multi_pod_logs word new_regex server namespace_ selector regex tail) fun logs =>
        Output.lines (json_table (logs.map LogLine.line))
  | some pod_name, false =>
    if follow then
      Output.of (compile new_regex regex) fun re =>
        print_stream re (follow_logs word server namespace_ pod_name tail)
    else
      Output.of (pod_logs word server namespace_ pod_name tail) fun logs =>
        Output.of (compile new_regex regex) fun re =>
          Output.lines ((logs.filter fun l => passes re l.2).map fun (container, line) =>
            "[" ++ container ++ "] " ++ line)
  | none, false =>
    Output.of (multi_pod_logs word new_regex server namespace_ selector regex tail) fun logs =>
      Output.lines (logs.map fun l => "[" ++ l.pod ++ "/" ++ l.container ++ "] " ++ l.line)

end

end kaptein_cli

/-! ## Logs with the same redacted lines -/

namespace kaptein_core.describe

variable (word : Char → Bool)

/-- The redactor leaves the same of both lines, or panics at both. -/
def SameShown (l l' : String) : Prop := redact.redact_line word l = redact.redact_line word l'

/-- Two answers that show the same: the same error, or lines that are redacted to the same. -/
def AlikeLogs : Except String String → Except String String → Prop
  | .ok a, .ok b => List.Forall₂ (SameShown word) (lines a) (lines b)
  | .error e, .error e' => e = e'
  | _, _ => False

def AlikeItem : Except String String → Except String String → Prop
  | .ok l, .ok l' => SameShown word l l'
  | .error e, .error e' => e = e'
  | _, _ => False

def AlikeStream : Except String (List (Except String String)) →
    Except String (List (Except String String)) → Prop
  | .ok a, .ok b => List.Forall₂ (AlikeItem word) a b
  | .error e, .error e' => e = e'
  | _, _ => False

/-- Two servers that differ in nothing but what the redactor takes out of the log lines. -/
structure LogServer.Alike (s s' : LogServer) : Prop where
  get_pod : s.get_pod = s'.get_pod
  list_pods : s.list_pods = s'.list_pods
  logs : ∀ ns pod container tail,
    AlikeLogs word (s.logs ns pod container tail) (s'.logs ns pod container tail)
  log_stream : ∀ ns pod tail,
    AlikeStream word (s.log_stream ns pod tail) (s'.log_stream ns pod tail)

theorem mapM_eq_of_forall₂ {α β γ : Type} {f : α → Except Fault γ} {g : β → Except Fault γ}
    {xs : List α} {ys : List β} (h : List.Forall₂ (fun x y => f x = g y) xs ys) :
    xs.mapM f = ys.mapM g := by
  induction h with
  | nil => rfl
  | cons hxy _ ih => rw [List.mapM_cons, List.mapM_cons, hxy, ih]

variable {word}

theorem SameShown.redacted_eq {l l' : String} (h : SameShown word l l') :
    redacted word l = redacted word l' := by
  unfold redacted
  rw [h]

theorem AlikeItem.map_eq {a b : Except String String} (h : AlikeItem word a b) :
    (do return ("", ← redacted word (← asked a)) : Except Fault (String × String)) =
      (do return ("", ← redacted word (← asked b))) := by
  cases a with
  | error e =>
    cases b with
    | error e' =>
      cases h
      rfl
    | ok l' => exact h.elim
  | ok l =>
    cases b with
    | error e => exact h.elim
    | ok l' =>
      have hline : redacted word l = redacted word l' := SameShown.redacted_eq h
      simp only [asked, Except.mapError, bind, Except.bind, hline]

/-- What is made of the lines of a log out of their redacted texts is the same. -/
theorem AlikeLogs.bind_eq {γ : Type} {a b : Except String String} (h : AlikeLogs word a b)
    {f : List String → Except Fault γ} (hf : ∀ x y,
      List.Forall₂ (SameShown word) (lines x) (lines y) → f (lines x) = f (lines y)) :
    (do let logs ← asked a; f (lines logs)) = (do let logs ← asked b; f (lines logs)) := by
  cases a with
  | error e =>
    cases b with
    | error e' =>
      cases h
      rfl
    | ok b => exact h.elim
  | ok a =>
    cases b with
    | error e => exact h.elim
    | ok b => exact hf _ _ h

theorem LogServer.Alike.pod_logs_eq {s s' : LogServer} (h : s.Alike word s')
    (ns name : String) (tail : Int) :
    pod_logs word s ns name tail = pod_logs word s' ns name tail := by
  have hcontainer : ∀ cname,
      container_logs word s ns name cname tail = container_logs word s' ns name cname tail := by
    intro cname
    refine (h.logs ns name cname tail).bind_eq fun x y hlines => ?_
    exact mapM_eq_of_forall₂ (hlines.imp fun _ _ hl => by rw [hl.redacted_eq])
  unfold pod_logs
  rw [h.get_pod]
  simp only [hcontainer]

theorem LogServer.Alike.follow_logs_eq {s s' : LogServer} (h : s.Alike word s')
    (ns name : String) (tail : Int) :
    follow_logs word s ns name tail = follow_logs word s' ns name tail := by
  have hitems : ∀ items items', List.Forall₂ (AlikeItem word) items items' →
      (items.map fun item => (do return ("", ← redacted word (← asked item)) :
        Except Fault (String × String))) =
      items'.map fun item => (do return ("", ← redacted word (← asked item))) := by
    intro items items' halike
    induction halike with
    | nil => rfl
    | cons hab _ ih => rw [List.map_cons, List.map_cons, hab.map_eq, ih]
  have hstream := h.log_stream ns name tail
  unfold follow_logs
  generalize s.log_stream ns name tail = a, s'.log_stream ns name tail = b at hstream
  cases a with
  | error e =>
    cases b with
    | error e' =>
      cases hstream
      rfl
    | ok items' => exact hstream.elim
  | ok items =>
    cases b with
    | error e => exact hstream.elim
    | ok items' => exact hitems _ _ hstream

/-- The filter does not tell two lines apart that the redactor makes the same. -/
def Respects (word : Char → Bool) (re : String → Bool) : Prop :=
  ∀ l l', '\n' ∉ l.toList → '\n' ∉ l'.toList → SameShown word l l' → re l = re l'

theorem Respects.filter {re : String → Bool} (hre : Respects word re) {xs ys : List String}
    (h : List.Forall₂ (SameShown word) xs ys) (hxs : ∀ l ∈ xs, '\n' ∉ l.toList)
    (hys : ∀ l ∈ ys, '\n' ∉ l.toList) :
    List.Forall₂ (SameShown word) (xs.filter re) (ys.filter re) := by
  induction h with
  | nil => exact .nil
  | @cons x y xs ys hxy _ ih =>
    rw [List.forall_mem_cons] at hxs hys
    have hsame := hre x y hxs.1 hys.1 hxy
    have hrest := ih hxs.2 hys.2
    cases hx : re x with
    | true =>
      rw [List.filter_cons_of_pos hx, List.filter_cons_of_pos (hsame ▸ hx)]
      exact .cons hxy hrest
    | false =>
      rw [List.filter_cons_of_neg (by simp [hx]), List.filter_cons_of_neg (by simp [← hsame, hx])]
      exact hrest

theorem LogServer.Alike.multi_pod_logs_eq {s s' : LogServer} (h : s.Alike word s')
    {new_regex : String → Except String (String → Bool)} {regex : Option String}
    (hre : ∀ re, compile new_regex regex = .ok re → Respects word (passes re))
    (ns : String) (selector : Option String) (tail : Int) :
    multi_pod_logs word new_regex s ns selector regex tail =
      multi_pod_logs word new_regex s' ns selector regex tail := by
  unfold multi_pod_logs
  rw [h.list_pods]
  cases hcompile : compile new_regex regex with
  | error fault => rfl
  | ok re =>
    have hcontainer : ∀ pod container,
        matching_logs word re s ns pod container tail =
          matching_logs word re s' ns pod container tail := by
      intro pod container
      refine (h.logs ns pod container tail).bind_eq (f := fun ls => (ls.filter (passes re)).mapM _)
        fun x y hlines => ?_
      have hfiltered := (hre re hcompile).filter hlines (fun _ => no_newline_of_mem_lines)
        (fun _ => no_newline_of_mem_lines)
      exact mapM_eq_of_forall₂ (hfiltered.imp fun _ _ hl => by rw [hl.redacted_eq])
    simp only [bind, Except.bind, hcontainer]

end kaptein_core.describe

namespace kaptein_cli

open kaptein_core.describe

/-- One pod with one container, whose log is one line. -/
def line_server (l : String) : LogServer where
  get_pod _ _ := .ok ["c"]
  list_pods _ _ := .ok [("p", ["c"])]
  logs _ _ _ _ := .ok (l ++ "\r" ++ "\n" ++ "")
  log_stream _ _ _ := .ok [.ok l]

theorem lines_of_line {l : String} (h : '\n' ∉ l.toList) :
    lines (l ++ "\r" ++ "\n" ++ "") = [l] := by
  rw [lines_cons _ _ (by simpa using h)]
  simp [lines, pieces, line_texts]

theorem line_server_alike {word : Char → Bool} {l l' : String} (hl : '\n' ∉ l.toList)
    (hl' : '\n' ∉ l'.toList) (h : SameShown word l l') :
    (line_server l).Alike word (line_server l') where
  get_pod := rfl
  list_pods := rfl
  logs _ _ _ _ := by
    show List.Forall₂ _ (lines _) (lines _)
    rw [lines_of_line hl, lines_of_line hl']
    exact .cons h .nil
  log_stream _ _ _ := .cons h .nil

/-- A line that passes is seen, whether its redaction succeeds or panics. -/
theorem shown_ne_nothing (r : Except Fault String) :
    (Output.of r fun line => Output.lines ["[p/c] " ++ line]) ≠ Output.lines [] := by
  intro h
  cases r with
  | error fault => exact absurd (congrArg Output.result h) (by simp [Output.of, Output.lines])
  | ok line => exact absurd (congrArg Output.stdout h) (by simp [Output.of, Output.lines])

section
variable [FloatText] [FloatRead] [FloatDisplay] {word : Char → Bool}
  {new_regex : String → Except String (String → Bool)}

/-- What the selector makes of a line that may pass. -/
def shown_line (word : Char → Bool) (re : String → Bool) (l : String) :
    Except Fault (List LogLine) :=
  if re l then do
    return [{ pod := "p", namespace_ := "", container := "c", line := ← redacted word l }]
  else .ok []

/-- The selector shows that a line passed the filter. -/
theorem print_line_server {l p : String} {re : String → Bool} (hl : '\n' ∉ l.toList)
    (hre : new_regex p = .ok re) :
    print_logs word new_regex (line_server l) none "" none (some p) 0 false false =
      if re l then Output.of (redacted word l) fun line => Output.lines ["[p/c] " ++ line]
      else Output.lines [] := by
  have hcompile : compile new_regex (some p) = .ok (some re) := by
    rw [compile, hre]
    rfl
  have hmatching :
      matching_logs word (some re) (line_server l) "" "p" "c" 0 = shown_line word re l := by
    unfold shown_line
    show ((lines (l ++ "\r" ++ "\n" ++ "")).filter re).mapM _ = _
    rw [lines_of_line hl]
    cases hpass : re l with
    | true =>
      rw [List.filter_cons_of_pos hpass, List.filter_nil, List.mapM_cons, List.mapM_nil]
      cases hred : redacted word l <;> rfl
    | false =>
      rw [List.filter_cons_of_neg (by simp [hpass]), List.filter_nil]
      rfl
  have hmulti :
      multi_pod_logs word new_regex (line_server l) "" none (some p) 0 = shown_line word re l := by
    unfold multi_pod_logs
    rw [hcompile]
    simp only [line_server, asked, Except.mapError, bind, Except.bind, List.mapM_cons,
      List.mapM_nil] at hmatching ⊢
    rw [hmatching, shown_line]
    cases hpass : re l with
    | true => cases hred : redacted word l <;> rfl
    | false => rfl
  show Output.of (multi_pod_logs word new_regex (line_server l) "" none (some p) 0) _ = _
  rw [hmulti, shown_line]
  cases hpass : re l with
  | true => cases hred : redacted word l <;> rfl
  | false => rfl

/-- Of two servers that differ in nothing but what is redacted, the logs of a pod print the
same, with any filter and in any form. The logs of a selector do so without a filter, and
with the very filters that tell no two lines apart which the redactor makes the same. -/
theorem logs_print_redacted_lines_only :
    (∀ s s', s.Alike word s' → ∀ pod ns selector regex tail follow json,
      print_logs word new_regex s (some pod) ns selector regex tail follow json =
        print_logs word new_regex s' (some pod) ns selector regex tail follow json) ∧
    (∀ s s', s.Alike word s' → ∀ ns selector tail follow json,
      print_logs word new_regex s none ns selector none tail follow json =
        print_logs word new_regex s' none ns selector none tail follow json) ∧
    ∀ p re, new_regex p = .ok re →
      ((∀ s s', s.Alike word s' → ∀ ns selector tail follow json,
        print_logs word new_regex s none ns selector (some p) tail follow json =
          print_logs word new_regex s' none ns selector (some p) tail follow json) ↔
        Respects word re) := by
  have hselector : ∀ (s s' : LogServer), s.Alike word s' → ∀ ns selector regex tail follow json,
      (∀ re, compile new_regex regex = .ok re → Respects word (passes re)) →
        print_logs word new_regex s none ns selector regex tail follow json =
          print_logs word new_regex s' none ns selector regex tail follow json := by
    intro s s' h ns selector regex tail follow json hre
    unfold print_logs
    cases json <;> simp only [h.multi_pod_logs_eq hre]
  refine ⟨?_, ?_, ?_⟩
  · intro s s' h pod ns selector regex tail follow json
    unfold print_logs
    cases json <;> simp only [h.pod_logs_eq, h.follow_logs_eq]
  · intro s s' h ns selector tail follow json
    refine hselector s s' h ns selector none tail follow json fun re hre => ?_
    cases hre
    exact fun l l' _ _ _ => rfl
  · intro p re hp
    constructor
    · intro hsame l l' hl hl' hshown
      have hprint := hsame _ _ (line_server_alike hl hl' hshown) "" none 0 false false
      rw [print_line_server hl hp, print_line_server hl' hp] at hprint
      cases hpass : re l with
      | true =>
        cases hpass' : re l' with
        | true => rfl
        | false =>
          rw [hpass, hpass'] at hprint
          exact absurd hprint (shown_ne_nothing _)
      | false =>
        cases hpass' : re l' with
        | true =>
          rw [hpass, hpass'] at hprint
          exact absurd hprint.symm (shown_ne_nothing _)
        | false => rfl
    · intro hre s s' h ns selector tail follow json
      refine hselector s s' h ns selector (some p) tail follow json fun re' hre' => ?_
      rw [compile, hp] at hre'
      cases hre'
      exact hre

end

/-- No cell of the examples is a double. -/
abbrev no_float_display : FloatDisplay := ⟨fun _ => ""⟩

/-- The filter of a selector finds out whether a password is a given word. -/
theorem a_filter_finds_a_password :
    ¬∀ s s' : LogServer, s.Alike redact.ascii_word s' → ∀ ns selector tail follow json,
      @print_logs no_float_text no_float_read no_float_display redact.ascii_word
          (fun p => .ok fun l => contains l p) s none ns selector (some "hunter2") tail follow
          json =
        @print_logs no_float_text no_float_read no_float_display redact.ascii_word
          (fun p => .ok fun l => contains l p) s' none ns selector (some "hunter2") tail follow
          json := by
  have hfilter := (@logs_print_redacted_lines_only no_float_text no_float_read no_float_display
    redact.ascii_word fun p => .ok fun l => contains l p).2.2 "hunter2" _ rfl
  rw [hfilter]
  intro h
  have hsame := h "password=hunter2" "password=swordfish" (by decide) (by decide) (by
    unfold SameShown
    decide +kernel)
  exact absurd hsame (by decide +kernel)

/-! ## The table of a structured log -/

open kaptein_viewmodel.logparse

section
variable [FloatText] [FloatRead]

/-- The members of a line that is the text of an object. Any other line has none. -/
def members_of (line : String) : Map :=
  match from_str line with
  | some (.object m) => m
  | _ => []

/-- The columns of a line are its members. -/
theorem line_columns (line : String) : ((parse_json_line line).getD BTreeMap.empty).entries =
    (members_of line).map fun p => (p.1, json_to_cell p.2) := by
  by_cases hobject : ∃ m, from_str line = some (.object m)
  · obtain ⟨m, hm⟩ := hobject
    have hsorted : btree.Sorted (m.map fun p => (p.1, json_to_cell p.2)) := by
      rw [btree.Sorted, List.map_map]
      exact from_str_ordered hm
    have hparse : parse_json_line line = some ⟨_, hsorted⟩ :=
      parse_json_line_eq_some.mpr ⟨m, hm, rfl⟩
    rw [hparse, members_of, hm]
    rfl
  · rw [not_exists] at hobject
    have hmembers : members_of line = [] := by
      unfold members_of
      split
      · rename_i m hm
        exact absurd hm (hobject m)
      · rfl
    rw [parse_json_line_eq_none hobject, hmembers]
    rfl

theorem line_keys (line : String) :
    ((parse_json_line line).getD BTreeMap.empty).keys = (members_of line).keys := by
  rw [BTreeMap.keys, line_columns, List.map_map]
  rfl

/-- The text of an object that names no key twice has the members of the object, whatever their
order. -/
theorem get_members_of {m : Map} (hnodup : m.keys.Nodup) (hreads : (Value.object m).ReadsBack)
    (hdepth : (Value.object m).depth < 128) (c : String) :
    Map.get (members_of (Value.object m).to_string) c = (Map.get m c).map Value.stored := by
  have hread := from_str_to_string hreads hdepth
  rw [Value.stored] at hread
  rw [members_of, hread]
  dsimp only
  rw [Map.get_insert_all (by rwa [keys_stored_members]), get_stored_members]
  exact Option.or_none

theorem mem_columns {lines : List String} {c : String} :
    c ∈ infer_columns (parse_log_stream lines) ↔ ∃ line ∈ lines, c ∈ (members_of line).keys := by
  rw [mem_infer_columns]
  simp only [parse_log_stream, List.mem_map, exists_exists_and_eq_and, line_keys]

variable [FloatDisplay]

/-- The row of a line under a header: the cells of its members, or the line as it is where it has
no member. -/
def table_row (columns : List String) (line : String) : String :=
  if (members_of line).isEmpty then line
  else "\t".intercalate (columns.map fun c =>
    cell_text ((Map.get (members_of line) c).map json_to_cell))

theorem table_rows (columns : List String) (lines : List String) :
    ((parse_log_stream lines).map fun line =>
      if line.columns.entries.isEmpty then line.raw
      else "\t".intercalate (columns.map fun c => cell_text (line.columns.get c))) =
        lines.map (table_row columns) := by
  rw [parse_log_stream, List.map_map]
  refine List.map_congr_left fun line _ => ?_
  simp only [Function.comp_apply, BTreeMap.get, line_columns, lookup_map_entries,
    List.isEmpty_map, table_row]

variable (word : Char → Bool)

/-- The redacted lines that the command puts into its table. The filter of a pod is asked about
these lines, that of a selector about the lines as the server holds them. -/
def table_lines (new_regex : String → Except String (String → Bool)) (server : LogServer)
    (name : Option String) (namespace_ : String) (selector regex : Option String) (tail : Int) :
    Except Fault (List String) := do
  let re ← compile new_regex regex
  match name with
  | some pod_name => do
    let logs ← pod_logs word server namespace_ pod_name tail
    return (logs.map Prod.snd).filter (passes re)
  | none => do
    let logs ← multi_pod_logs word new_regex server namespace_ selector regex tail
    return logs.map LogLine.line

theorem print_logs_json (new_regex : String → Except String (String → Bool)) (server : LogServer)
    (name : Option String) (namespace_ : String) (selector regex : Option String) (tail : Int)
    (follow : Bool) :
    print_logs word new_regex server name namespace_ selector regex tail follow true =
      Output.of (table_lines word new_regex server name namespace_ selector regex tail)
        fun lines => Output.lines (json_table lines) := by
  unfold print_logs table_lines
  cases compile new_regex regex with
  | error fault => cases name <;> rfl
  | ok re =>
    cases name with
    | some pod_name =>
      simp only [Output.of, bind, Except.bind]
      cases pod_logs word server namespace_ pod_name tail <;> rfl
    | none =>
      simp only [Output.of, bind, Except.bind]
      cases multi_pod_logs word new_regex server namespace_ selector regex tail <;> rfl

end

/-- Two printed lines of a pod, a text and an object that holds a password. -/
def mixed_server : LogServer where
  get_pod _ _ := .ok ["c"]
  list_pods _ _ := .ok []
  logs _ _ _ _ := .ok "starting\n\x7b\"ok\":null,\"password\":\"hunter2\"\x7d\n"
  log_stream _ _ _ := .ok []

example : (@print_logs no_float_text no_float_read no_float_display redact.ascii_word
    (fun _ => .error "not asked for") mixed_server (some "p") "" none none 0 false true).stdout =
      ["ok\tpassword", "starting", "null\t[REDACTED]"] := by decide +kernel

end kaptein_cli
