-- The audit log on disk (`audit.rs`): one record a line, in the JSON that the
-- derived serializers give. A record is appended behind what is there; a write
-- that fails may leave a part of its line.
import Kaptein.Governance
import Kaptein.Lib.Serialize
import Mathlib.Data.List.DropRight

open rust_str serde serde_json

namespace kaptein_viewmodel.audit

/-! ## Serialization -/

def OPERATIONS : List (String × Operation) :=
  [("List", .List), ("Describe", .Describe), ("Logs", .Logs), ("Diagnose", .Diagnose),
   ("Delete", .Delete), ("Scale", .Scale), ("Restart", .Restart), ("Cordon", .Cordon),
   ("Drain", .Drain), ("Evict", .Evict), ("EphemeralAttach", .EphemeralAttach), ("Exec", .Exec),
   ("PortForward", .PortForward), ("GitPrOpened", .GitPrOpened), ("SecretViewed", .SecretViewed)]

def OUTCOMES : List (String × Outcome) :=
  [("Applied", .Applied), ("DryRun", .DryRun), ("Rejected", .Rejected)]

/-- The variants in snake case. -/
def SOURCES : List (String × Source) :=
  [("tui", .Tui), ("gui", .Gui), ("browser", .Browser), ("mcp", .Mcp), ("headless", .Headless)]

/-- The variants in snake case. -/
def ACTOR_KINDS : List (String × ActorKind) := [("human", .Human), ("agent", .Agent)]

/-- A record with a timestamp in the 64 bits of its type. -/
abbrev Record := { e : AuditEvent // FitsI64 e.timestamp }

def Actor.serialize (a : Actor) : Value :=
  .object [("kind", serialize_variant ACTOR_KINDS a.kind), ("name", .string a.name)]

def ResourceRef.serialize (r : ResourceRef) : Value :=
  .object [("group", .string r.group), ("kind", .string r.kind),
    ("namespace", .string r.namespace_), ("name", .string r.name)]

/-- The fields stand in the order of the struct. -/
def Record.serialize (r : Record) : Value :=
  .object [("timestamp", serialize_i64 r.1.timestamp), ("actor", r.1.actor.serialize),
    ("context", .string r.1.context), ("operation", serialize_variant OPERATIONS r.1.operation),
    ("target", r.1.target.serialize), ("outcome", serialize_variant OUTCOMES r.1.outcome),
    ("source", serialize_variant SOURCES r.1.source), ("session_id", .string r.1.session_id),
    ("reason", serialize_option .string r.1.reason),
    ("on_behalf_of", serialize_option .string r.1.on_behalf_of)]

/-! ## Deserialization -/

def Actor.deserialize : Value → Option Actor :=
  struct ["kind", "name"] fun field => do
    return { kind := ← required (variant ACTOR_KINDS) (field "kind"),
             name := ← required string (field "name") }

def ResourceRef.deserialize : Value → Option ResourceRef :=
  struct ["group", "kind", "namespace", "name"] fun field => do
    return { group := ← required string (field "group"),
             kind := ← required string (field "kind"),
             namespace_ := ← required string (field "namespace"),
             name := ← required string (field "name") }

/-- A missing reason is none, as for every optional field. -/
def AuditEvent.deserialize : Value → Option AuditEvent :=
  struct ["timestamp", "actor", "context", "operation", "target", "outcome", "source",
      "session_id", "reason", "on_behalf_of"] fun field => do
    return { timestamp := ← required i64 (field "timestamp"),
             actor := ← required Actor.deserialize (field "actor"),
             context := ← required string (field "context"),
             operation := ← required (variant OPERATIONS) (field "operation"),
             target := ← required ResourceRef.deserialize (field "target"),
             outcome := ← required (variant OUTCOMES) (field "outcome"),
             source := ← required (variant SOURCES) (field "source"),
             session_id := ← required string (field "session_id"),
             reason := ← with_default none (option string) (field "reason"),
             on_behalf_of := ← with_default none (option string) (field "on_behalf_of") }

/-! ## The deserializers undo the serializers -/

theorem variant_operation (op : Operation) :
    variant OPERATIONS (serialize_variant OPERATIONS op) = some op := by cases op <;> rfl

theorem variant_outcome (o : Outcome) :
    variant OUTCOMES (serialize_variant OUTCOMES o) = some o := by
  cases o <;> rfl

theorem variant_source (s : Source) : variant SOURCES (serialize_variant SOURCES s) = some s := by
  cases s <;> rfl

theorem variant_actor_kind (k : ActorKind) :
    variant ACTOR_KINDS (serialize_variant ACTOR_KINDS k) = some k := by cases k <;> rfl

theorem reads_actor (a : Actor) : Reads 1 Actor.deserialize a.serialize a := by
  have hkind := reads_variant 0 (variant_actor_kind a.kind)
  have hname := reads_string 0 a.name
  refine reads_struct (by exact (by decide : ["kind", "name"].Nodup)) ?_ ?_
  · simp only [List.forall_mem_cons, List.not_mem_nil, false_implies, implies_true, and_true]
    exact ⟨hkind.fits, hname.fits⟩
  · simp [Map.get_cons, required, hkind.stored, hname.stored]

theorem reads_resource_ref (r : ResourceRef) : Reads 1 ResourceRef.deserialize r.serialize r := by
  have hstring := reads_string 0
  refine reads_struct (by exact (by decide : ["group", "kind", "namespace", "name"].Nodup)) ?_ ?_
  · simp only [List.forall_mem_cons, List.not_mem_nil, false_implies, implies_true, and_true]
    exact ⟨(hstring _).fits, (hstring _).fits, (hstring _).fits, (hstring _).fits⟩
  · simp [Map.get_cons, required, (hstring _).stored]

/-- A record is read as the event that it was printed of. -/
theorem reads_record (r : Record) : Reads 2 AuditEvent.deserialize r.serialize r.1 := by
  have hstring := reads_string 1
  have htimestamp := reads_i64 1 r.2
  have hactor := reads_actor r.1.actor
  have htarget := reads_resource_ref r.1.target
  have hoperation := reads_variant 1 (variant_operation r.1.operation)
  have houtcome := reads_variant 1 (variant_outcome r.1.outcome)
  have hsource := reads_variant 1 (variant_source r.1.source)
  have hoption := reads_option_string 1
  refine reads_struct (by exact (by decide : ["timestamp", "actor", "context", "operation",
    "target", "outcome", "source", "session_id", "reason", "on_behalf_of"].Nodup)) ?_ ?_
  · simp only [List.forall_mem_cons, List.not_mem_nil, false_implies, implies_true, and_true]
    exact ⟨htimestamp.fits, hactor.fits, (hstring _).fits, hoperation.fits, htarget.fits,
      houtcome.fits, hsource.fits, (hstring _).fits, (hoption _).fits, (hoption _).fits⟩
  · simp [Map.get_cons, required, with_default, htimestamp.stored, hactor.stored, htarget.stored,
      hoperation.stored, houtcome.stored, hsource.stored, (hstring _).stored, (hoption _).stored]

end kaptein_viewmodel.audit

namespace kaptein_cli.audit

open kaptein_viewmodel.audit

/-! ## The file -/

/-- How an append ends. A file that cannot be opened stays as it is, and a write that stops
leaves the first characters of its line. -/
inductive Append where
  | whole
  | failed (msg : String)
  | torn (written : Nat) (msg : String)
  deriving DecidableEq

section
variable [FloatText]

/-- What `writeln!` writes of a record. -/
def line (r : Record) : String := r.serialize.to_string ++ "\n"

/-- `append_to`: the text of the file afterwards, and the answer. -/
def append_to (text : String) (r : Record) : Append → String × Except String Unit
  | .whole => (text ++ line r, .ok ())
  | .failed msg => (text, .error msg)
  | .torn written msg => (text ++ String.ofList ((line r).toList.take written), .error msg)

/-- Appends one after the other. Their answers are not looked at. -/
def append_all (text : String) (calls : List (Record × Append)) : String :=
  calls.foldl (fun text c => (append_to text c.1 c.2).1) text

/-- The file is empty or ends with the end of a line. -/
def Clean (text : String) : Prop := ∀ c, text.toList.getLast? = some c → c = '\n'

instance (text : String) : Decidable (Clean text) :=
  decidable_of_iff (text.toList.getLast?.all (· == '\n') = true) (by
    unfold Clean
    cases text.toList.getLast? <;> simp)

/-- The text up to the end of its last whole line. -/
def finished (text : String) : String := String.ofList (text.toList.rdropWhile (· ≠ '\n'))

/-- The records that are written whole, at the start of a line. -/
def survivors (text : String) : List (Record × Append) → List AuditEvent
  | [] => []
  | (r, a) :: calls =>
    let rest := survivors (append_to text r a).1 calls
    if a = .whole ∧ Clean text then r.1 :: rest else rest

variable [FloatRead]

/-- The records of a log, line by line; a line that is none is passed over. -/
def read_back (text : String) : List AuditEvent :=
  (lines text).filterMap fun l => (from_str l).bind AuditEvent.deserialize

end

/-! ## One line -/

theorem no_newline_in_record [FloatText] (r : Record) : '\n' ∉ r.serialize.to_string.toList :=
  (Value.Whole.no_control _ (reads_record r).whole).not_mem (by decide)

theorem clean_finished (text : String) : Clean (finished text) := by
  intro c hc
  rw [finished, String.toList_ofList] at hc
  obtain ⟨hne, rfl⟩ := List.mem_getLast?_eq_getLast hc
  simpa using List.rdropWhile_last_not _ _ hne

/-- What stands behind the last whole line is a part of a line. -/
theorem eq_finished_append (text : String) :
    ∃ part, text = finished text ++ part ∧ '\n' ∉ part.toList := by
  refine ⟨String.ofList (text.toList.rtakeWhile (· ≠ '\n')), ?_, ?_⟩
  · rw [← String.toList_inj, finished, String.toList_append, String.toList_ofList,
      String.toList_ofList, List.rdropWhile_append_rtakeWhile]
  · rw [String.toList_ofList]
    intro h
    simpa using List.mem_rtakeWhile_imp h

theorem clean_append_line [FloatText] (text : String) (r : Record) : Clean (text ++ line r) := by
  intro c hc
  rw [line, ← String.append_assoc, String.toList_append] at hc
  simpa using hc.symm

/-- A clean text is the text of whole lines. -/
theorem Clean.eq {text : String} (h : Clean text) : text = "" ∨ ∃ t, text = t ++ "\n" := by
  rcases List.eq_nil_or_concat text.toList with hnil | ⟨cs, c, hcs⟩
  · exact .inl (String.toList_eq_nil_iff.mp hnil)
  · rw [List.concat_eq_append] at hcs
    have hc := h c (by rw [hcs]; exact List.getLast?_concat)
    subst hc
    refine .inr ⟨String.ofList cs, ?_⟩
    rw [← String.toList_inj, hcs]
    simp

theorem Clean.lines_append {text : String} (h : Clean text) (rest : String) :
    lines (text ++ rest) = lines text ++ lines rest := by
  rcases h.eq with rfl | ⟨t, rfl⟩
  · simp [lines, pieces, line_texts]
  · exact rust_str.lines_append t rest

theorem Clean.read_back_append [FloatRead] {text : String} (h : Clean text) (rest : String) :
    read_back (text ++ rest) = read_back text ++ read_back rest := by
  rw [read_back, h.lines_append, List.filterMap_append]
  rfl

theorem read_back_line [FloatText] [FloatRead] (r : Record) : read_back (line r) = [r.1] := by
  have hlast : r.serialize.to_string.toList.getLast? = some '\x7d' := by
    have htext := object_text "timestamp" (serialize_i64 r.1.timestamp)
      [("actor", r.1.actor.serialize), ("context", .string r.1.context),
        ("operation", serialize_variant OPERATIONS r.1.operation), ("target", r.1.target.serialize),
        ("outcome", serialize_variant OUTCOMES r.1.outcome),
        ("source", serialize_variant SOURCES r.1.source), ("session_id", .string r.1.session_id),
        ("reason", serialize_option .string r.1.reason),
        ("on_behalf_of", serialize_option .string r.1.on_behalf_of)]
    have hobject : r.serialize.text = _ := htext
    rw [Value.text] at hobject
    rw [hobject]
    simp only [← List.cons_append, ← List.append_assoc, List.getLast?_concat]
  have hlines : lines (line r) = [r.serialize.to_string] := by
    have hcons := lines_cons r.serialize.to_string "" (no_newline_in_record r)
    rw [String.append_empty, hlast, if_neg (by decide), String.ofList_toList] at hcons
    rw [line, hcons]
    rfl
  rw [read_back, hlines, List.filterMap_cons, (reads_record r).text (by decide)]
  rfl

/-! ## Any number of appends -/

/-- What an append writes: its whole line, or a part without the end of the line. -/
theorem append_to_text [FloatText] (text : String) (r : Record) (a : Append) :
    ∃ chunk, (append_to text r a).1 = text ++ chunk ∧
      ('\n' ∉ chunk.toList ∨ chunk = line r) := by
  cases a with
  | whole => exact ⟨line r, rfl, .inr rfl⟩
  | failed msg => exact ⟨"", String.append_empty.symm, .inl (by simp)⟩
  | torn written msg =>
    refine ⟨_, rfl, ?_⟩
    have hline : (line r).toList = r.serialize.to_string.toList ++ ['\n'] := by simp [line]
    rw [String.toList_ofList, hline]
    rcases Nat.lt_or_ge r.serialize.to_string.toList.length written with h | h
    · right
      rw [List.take_of_length_le (by simp; omega), ← hline, String.ofList_toList]
    · left
      rw [List.take_append_of_le_length h]
      exact fun hmem => no_newline_in_record r (List.mem_of_mem_take hmem)

theorem clean_append_iff {base part : String} (hbase : Clean base) (hpart : '\n' ∉ part.toList) :
    Clean (base ++ part) ↔ part = "" := by
  constructor
  · intro h
    rcases List.eq_nil_or_concat part.toList with hnil | ⟨cs, c, hcs⟩
    · exact String.toList_eq_nil_iff.mp hnil
    · rw [List.concat_eq_append] at hcs
      have hc := h c (by rw [String.toList_append, hcs, ← List.append_assoc, List.getLast?_concat])
      rw [hcs, hc] at hpart
      exact absurd (by simp) hpart
  · rintro rfl
    rwa [String.append_empty]

/-- The induction over the appends. The file is whole lines and the part of a line that a write
left behind them, which swallows the next record. -/
theorem survivors_sublist [FloatText] [FloatRead] (calls : List (Record × Append))
    {base part : String} (hbase : Clean base) (hpart : '\n' ∉ part.toList) :
    (read_back base ++ survivors (base ++ part) calls).Sublist
      (read_back (append_all (base ++ part) calls)) := by
  induction calls generalizing base part with
  | nil =>
    rw [survivors, List.append_nil, append_all, List.foldl_nil, hbase.read_back_append]
    exact List.sublist_append_left _ _
  | cons call calls ih =>
    obtain ⟨r, a⟩ := call
    have hstep : append_all (base ++ part) ((r, a) :: calls) =
        append_all (append_to (base ++ part) r a).1 calls := rfl
    rw [hstep, survivors]
    by_cases ha : a = .whole ∧ Clean (base ++ part)
    · -- the record starts a line of its own
      obtain ⟨rfl, hclean⟩ := ha
      have hempty := (clean_append_iff hbase hpart).mp hclean
      subst hempty
      rw [if_pos ⟨rfl, hclean⟩]
      have hnext := @ih _ "" (clean_append_line base r) (by simp)
      rw [hbase.read_back_append, read_back_line, List.append_assoc] at hnext
      simpa [append_to] using hnext
    · rw [if_neg ha]
      obtain ⟨chunk, htext, hchunk⟩ := append_to_text (base ++ part) r a
      rw [htext]
      rcases hchunk with hchunk | rfl
      · have hnext := @ih _ (part ++ chunk) hbase (by simp [hpart, hchunk])
        rwa [← String.append_assoc] at hnext
      · have hnext := @ih _ "" (clean_append_line (base ++ part) r) (by simp)
        have hassoc : base ++ part ++ line r = base ++ (part ++ line r) := String.append_assoc
        rw [String.append_empty, hassoc, hbase.read_back_append, List.append_assoc] at hnext
        rw [hassoc]
        exact ((List.Sublist.refl _).append (List.sublist_append_right _ _)).trans hnext

/-- A record that is written whole and is lost stands behind a torn one. -/
theorem whole_le_survivors [FloatText] (calls : List (Record × Append)) (text : String) :
    calls.countP (fun c => c.2 = .whole) ≤ (survivors text calls).length +
      calls.countP (fun c => c.2 matches .torn _ _) + (if Clean text then 0 else 1) := by
  induction calls generalizing text with
  | nil => simp
  | cons call calls ih =>
    obtain ⟨r, a⟩ := call
    have hnext := ih (append_to text r a).1
    cases a with
    | whole =>
      have hclean : Clean (append_to text r .whole).1 := clean_append_line text r
      rw [if_pos hclean] at hnext
      by_cases h : Clean text
      · simp [survivors, h] at hnext ⊢
        omega
      · simp [survivors, h] at hnext ⊢
        omega
    | failed msg =>
      simp [survivors, append_to] at hnext ⊢
      exact hnext
    | torn written msg =>
      simp [survivors] at hnext ⊢
      split at hnext <;> split <;> omega

theorem append_all_extends [FloatText] (calls : List (Record × Append)) (text : String) :
    ∃ rest, append_all text calls = text ++ rest := by
  induction calls generalizing text with
  | nil => exact ⟨"", String.append_empty.symm⟩
  | cons call calls ih =>
    obtain ⟨chunk, hchunk, -⟩ := append_to_text text call.1 call.2
    obtain ⟨rest, hrest⟩ := ih (append_to text call.1 call.2).1
    rw [hchunk, String.append_assoc] at hrest
    refine ⟨chunk ++ rest, ?_⟩
    rw [← hrest, ← hchunk]
    rfl

/-- The same from any text: its whole lines stay, whatever stands behind them. -/
theorem finished_sublist [FloatText] [FloatRead] (calls : List (Record × Append))
    (text : String) :
    (read_back (finished text) ++ survivors text calls).Sublist
      (read_back (append_all text calls)) := by
  obtain ⟨part, htext, hpart⟩ := eq_finished_append text
  have hkept := survivors_sublist calls (clean_finished text) hpart
  rwa [← htext] at hkept

theorem survivors_sublist_records [FloatText] (calls : List (Record × Append)) (text : String) :
    (survivors text calls).Sublist (calls.map fun c => c.1.1) := by
  induction calls generalizing text with
  | nil => exact List.Sublist.refl _
  | cons call calls ih =>
    rw [survivors, List.map_cons]
    split
    · exact (ih _).cons_cons _
    · exact (ih _).cons _

/-- Without a torn write every record that is written whole survives. -/
theorem survivors_of_no_torn [FloatText] (calls : List (Record × Append)) {text : String}
    (h : Clean text) (hwhole : ∀ c ∈ calls, (c.2 matches .torn _ _) = false) :
    survivors text calls = (calls.filter fun c => c.2 = .whole).map fun c => c.1.1 := by
  induction calls generalizing text with
  | nil => rfl
  | cons call calls ih =>
    obtain ⟨r, a⟩ := call
    rw [List.forall_mem_cons] at hwhole
    cases a with
    | whole => simpa [survivors, h, append_to] using ih (clean_append_line text r) hwhole.2
    | failed msg => simpa [survivors, append_to] using ih h hwhole.2
    | torn written msg => cases hwhole.1

/-- Without a torn write the new records are those whose append succeeded. -/
theorem read_back_append_all [FloatText] [FloatRead] (calls : List (Record × Append))
    {text : String} (h : Clean text) (hwhole : ∀ c ∈ calls, (c.2 matches .torn _ _) = false) :
    read_back (append_all text calls) =
      read_back text ++ (calls.filter fun c => c.2 = .whole).map fun c => c.1.1 := by
  induction calls generalizing text with
  | nil => exact (List.append_nil _).symm
  | cons call calls ih =>
    obtain ⟨r, a⟩ := call
    rw [List.forall_mem_cons] at hwhole
    cases a with
    | whole =>
      have hnext := ih (clean_append_line text r) hwhole.2
      rw [h.read_back_append, read_back_line] at hnext
      simpa [append_all, append_to] using hnext
    | failed msg => simpa [append_all, append_to] using ih h hwhole.2
    | torn written msg => cases hwhole.1

/-- The log over any run of appends. Its earlier text stays; the records that were written at
the start of a line are read back in their order, behind those that were there; a torn write
costs at most one other record; and with none, nothing but the successful appends is read. -/
theorem the_log_keeps_its_records [FloatText] [FloatRead] (text : String) (h : Clean text)
    (calls : List (Record × Append)) :
    (∃ rest, append_all text calls = text ++ rest) ∧
    (read_back text ++ survivors text calls).Sublist (read_back (append_all text calls)) ∧
    calls.countP (fun c => c.2 = .whole) ≤
      (survivors text calls).length + calls.countP (fun c => c.2 matches .torn _ _) ∧
    ((∀ c ∈ calls, (c.2 matches .torn _ _) = false) →
      read_back (append_all text calls) =
        read_back text ++ (calls.filter fun c => c.2 = .whole).map fun c => c.1.1) := by
  have hlost := whole_le_survivors calls text
  rw [if_pos h] at hlost
  have hkept := @survivors_sublist _ _ calls text "" h (by simp)
  rw [String.append_empty] at hkept
  exact ⟨append_all_extends calls text, hkept, hlost, read_back_append_all calls h⟩

/-- The record of an agent's call. -/
def listed_pods (session_id : String) : Record where
  val := {
    timestamp := 1700000000000, actor := ⟨.Agent, "agent-x"⟩, context := "prod",
    operation := .List, target := ⟨"", "Pod", "default", ""⟩, outcome := .Applied,
    source := .Mcp, session_id, reason := none, on_behalf_of := some "erling" }
  property := (by decide : FitsI64 1700000000000)

example : @line no_float_text (listed_pods "s") = "\x7b\"timestamp\":1700000000000," ++
    "\"actor\":\x7b\"kind\":\"agent\",\"name\":\"agent-x\"\x7d,\"context\":\"prod\"," ++
    "\"operation\":\"List\",\"target\":\x7b\"group\":\"\",\"kind\":\"Pod\"," ++
    "\"namespace\":\"default\",\"name\":\"\"\x7d,\"outcome\":\"Applied\",\"source\":\"mcp\"," ++
    "\"session_id\":\"s\",\"reason\":null,\"on_behalf_of\":\"erling\"\x7d\n" := by decide +kernel

/-- Of three records behind a torn one, two at least are read back. -/
theorem a_torn_write_costs_one_record :
    ∃ kept : List AuditEvent, 2 ≤ kept.length ∧ kept.Sublist (@read_back no_float_read
      (@append_all no_float_text "" [(listed_pods "t", .torn 9 "no space left on device"),
        (listed_pods "a", .whole), (listed_pods "b", .whole), (listed_pods "c", .whole)])) := by
  obtain ⟨-, hkept, hlost, -⟩ := @the_log_keeps_its_records no_float_text no_float_read ""
    (by intro c hc; cases hc) [(listed_pods "t", .torn 9 "no space left on device"),
      (listed_pods "a", .whole), (listed_pods "b", .whole), (listed_pods "c", .whole)]
  refine ⟨_, ?_, (List.sublist_append_right _ _).trans hkept⟩
  simp only [List.countP_cons, List.countP_nil, decide_true, if_true, reduceCtorEq, decide_false,
    Bool.false_eq_true, if_false] at hlost
  omega

end kaptein_cli.audit
