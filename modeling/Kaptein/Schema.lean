-- The published schema of a lens document (`schema.rs`) beside the loader. Both ask the
-- same shape of a document, and each asks something that the other does not.
import Kaptein.Lib.JsonSchema
import Kaptein.Loader

open serde_json serde json_schema rust_str kaptein_viewmodel.viewdef
open kaptein_viewmodel.lens (RuleOp ColumnKind)

namespace kaptein_cli.schema

/-! ## The schema -/

def text : Schema := .type .string

def word (words : List String) : Schema := .all [.type .string, .enum words]

def array_of (items : Schema) : Schema := .all [.type .array, .items items]

def one_of (cs : String) : RegularExpression Char :=
  cs.toList.foldr (fun c r => .char c + r) 0

def lower_or_digit : String := "abcdefghijklmnopqrstuvwxyz0123456789"

/-- `[a-z0-9]([a-z0-9-]*[a-z0-9])?` -/
def dns_label : RegularExpression Char :=
  one_of lower_or_digit * (1 + (one_of (lower_or_digit ++ "-")).star * one_of lower_or_digit)

/-- `^label(\.label)+$` -/
def reverse_dns : RegularExpression Char :=
  dns_label * ((.char '.' * dns_label) * (RegularExpression.char '.' * dns_label).star)

def rule_ops : List String := ["eq", "ne", "gt", "gte", "lt", "lte", "contains"]

def levels : List String := ["ok", "info", "warning", "error", "pending"]

def target_schema : Schema :=
  .closed ["version", "kind"] [("group", text), ("version", text), ("kind", text)]

def column_schema : Schema :=
  .closed ["id", "header_key", "kind"] [
    ("id", text),
    ("header_key", text),
    ("kind", word ["text", "number", "timestamp", "status"]),
    ("sortable", .type .boolean),
    ("field", text)]

def status_schema : Schema :=
  .closed ["field", "op", "value", "level"] [
    ("field", text),
    ("op", word rule_ops),
    ("value", .any),
    ("level", word levels)]

def condition_schema : Schema :=
  .closed ["condition_type", "status", "level"] [
    ("condition_type", text),
    ("status", word ["True", "False", "Unknown"]),
    ("level", word levels)]

def health_schema : Schema :=
  .closed ["id", "label_key", "field", "op", "value", "level"] [
    ("id", text),
    ("label_key", text),
    ("field", text),
    ("op", word rule_ops),
    ("value", .any),
    ("level", word levels)]

def action_schema : Schema :=
  .closed ["id", "label_key"] [
    ("id", text),
    ("label_key", text),
    ("state", word ["allowed", "forbidden", "gated"])]

def VIEWDEF_SCHEMA : Schema :=
  .closed ["id", "api_version", "target"] [
    ("id", .all [.type .string, .pattern reverse_dns]),
    ("api_version", .all [.type .integer, .const 1]),
    ("target", target_schema),
    ("columns", array_of column_schema),
    ("status", array_of status_schema),
    ("conditions", array_of condition_schema),
    ("health", array_of health_schema),
    ("actions", array_of action_schema)]

/-! ## What a member of the document is -/

def IsText (o : Option Value) : Prop := ∃ s, o = some (.string s)

def TextIs (p : String → Prop) (o : Option Value) : Prop := ∃ s, o = some (.string s) ∧ p s

def IsFlag (o : Option Value) : Prop := ∃ b, o = some (.bool b)

/-- A word of the list, as a string or as the one member of an object. -/
def IsWord (words : List String) (o : Option Value) : Prop :=
  ∃ v s, o = some v ∧ variant_name v = some s ∧ s ∈ words

def Is (P : Value → Prop) (o : Option Value) : Prop := ∃ v, o = some v ∧ P v

/-- Missing, or an array of such items. -/
def ListOf (P : Value → Prop) (o : Option Value) : Prop :=
  o = none ∨ ∃ vs, o = some (.array vs) ∧ ∀ v ∈ vs, P v

def elements : Option Value → List Value
  | some (.array vs) => vs
  | _ => []

def UniqueIds (fields : List String) (o : Option Value) : Prop :=
  ((elements o).map fun v => field fields v "id").Nodup

/-- An object with no member but the fields. -/
def Keyed (fields : List String) (v : Value) : Prop :=
  ∃ m, v = .object m ∧ ∀ k ∈ Map.keys m, k ∈ fields

def NotBlank (s : String) : Prop := trim s ≠ ""

/-! ## What schema and loader ask -/

/-- What both ask of a value, and what each of them asks beyond that. -/
structure Demands where
  common : Value → Prop
  by_schema : Value → Prop
  by_loader : Value → Prop

def target_demands : Demands where
  common v :=
    let f := field GroupVersionKind.FIELDS v
    (f "group" = none ∨ IsText (f "group")) ∧ IsText (f "version") ∧ IsText (f "kind")
  by_schema v := Keyed GroupVersionKind.FIELDS v
  by_loader v :=
    let f := field GroupVersionKind.FIELDS v
    is_struct GroupVersionKind.FIELDS v = true ∧
      TextIs NotBlank (f "version") ∧ TextIs NotBlank (f "kind")

/-- The value can be compared: a number for the orders, a string for `contains`. -/
def Compares (op value : Option Value) : Prop :=
  (IsWord ["gt", "gte", "lt", "lte"] op → Is (fun v => is_number v = true) value) ∧
    (IsWord ["contains"] op → Is (fun v => is_string v = true) value)

def condition_demands : Demands where
  common v :=
    let f := field condition_rule_fields v
    IsText (f "condition_type") ∧ TextIs (· ∈ ["True", "False", "Unknown"]) (f "status") ∧
      IsWord levels (f "level")
  by_schema v := Keyed condition_rule_fields v ∧ IsText (field condition_rule_fields v "level")
  by_loader v :=
    is_struct condition_rule_fields v = true ∧
      TextIs NotBlank (field condition_rule_fields v "condition_type")

/-- The state of an action as the document declares it: one of the words, or none. -/
def KnownState (v : Value) : Prop :=
  field LensAction.FIELDS v "state" = none ∨
    TextIs (· ∈ ["allowed", "forbidden", "gated"]) (field LensAction.FIELDS v "state")

def action_demands : Demands where
  common v :=
    let f := field LensAction.FIELDS v
    IsText (f "id") ∧ IsText (f "label_key") ∧ (f "state" = none ∨ IsText (f "state"))
  by_schema v := Keyed LensAction.FIELDS v ∧ KnownState v
  by_loader v :=
    is_struct LensAction.FIELDS v = true ∧ TextIs NotBlank (field LensAction.FIELDS v "id")

section

variable [AlphanumericTable]

def column_demands : Demands where
  common v :=
    let f := field Column.FIELDS v
    IsText (f "id") ∧ IsText (f "header_key") ∧
      IsWord ["text", "number", "timestamp", "status"] (f "kind") ∧
      (f "sortable" = none ∨ IsFlag (f "sortable")) ∧
      (f "field" = none ∨ f "field" = some .null ∨ IsText (f "field"))
  by_schema v :=
    let f := field Column.FIELDS v
    Keyed Column.FIELDS v ∧ IsText (f "kind") ∧ f "field" ≠ some .null
  by_loader v :=
    let f := field Column.FIELDS v
    is_struct Column.FIELDS v = true ∧
      TextIs NotBlank (f "id") ∧ TextIs (fun s => valid_header_key s = true) (f "header_key") ∧
      f "sortable" ≠ none ∧
      (¬ IsWord ["status"] (f "kind") → TextIs (· ≠ "") (f "field")) ∧
      ∀ s, f "field" = some (.string s) → s ≠ "" → valid_field_path s = true

def status_demands : Demands where
  common v :=
    let f := field status_rule_fields v
    IsText (f "field") ∧ IsWord rule_ops (f "op") ∧ f "value" ≠ none ∧ IsWord levels (f "level")
  by_schema v :=
    let f := field status_rule_fields v
    Keyed status_rule_fields v ∧ IsText (f "op") ∧ IsText (f "level")
  by_loader v :=
    let f := field status_rule_fields v
    is_struct status_rule_fields v = true ∧
      TextIs (fun s => valid_field_path s = true) (f "field") ∧ Compares (f "op") (f "value")

def health_demands : Demands where
  common v :=
    let f := field HealthCheck.FIELDS v
    IsText (f "id") ∧ IsText (f "label_key") ∧ IsText (f "field") ∧ IsWord rule_ops (f "op") ∧
      f "value" ≠ none ∧ IsWord levels (f "level")
  by_schema v :=
    let f := field HealthCheck.FIELDS v
    Keyed HealthCheck.FIELDS v ∧ IsText (f "op") ∧ IsText (f "level")
  by_loader v :=
    let f := field HealthCheck.FIELDS v
    is_struct HealthCheck.FIELDS v = true ∧
      TextIs NotBlank (f "id") ∧ TextIs (fun s => valid_header_key s = true) (f "label_key") ∧
      TextIs (fun s => valid_field_path s = true) (f "field") ∧ Compares (f "op") (f "value")

/-- The id has a dot for both, and the schema asks for more than that. A version that is
written as the double 1.0 is 1 for the schema only. -/
def document_demands : Demands where
  common d :=
    let f := field ViewDefinition.FIELDS d
    TextIs (fun s => NotBlank s ∧ '.' ∈ s.toList) (f "id") ∧
      (∃ n, f "api_version" = some (.number n) ∧ n.value = 1) ∧
      Is target_demands.common (f "target") ∧
      ListOf column_demands.common (f "columns") ∧
      ListOf status_demands.common (f "status") ∧
      ListOf condition_demands.common (f "conditions") ∧
      ListOf health_demands.common (f "health") ∧
      ListOf action_demands.common (f "actions")
  by_schema d :=
    let f := field ViewDefinition.FIELDS d
    Keyed ViewDefinition.FIELDS d ∧
      TextIs (fun s => reverse_dns.rmatch s.toList = true) (f "id") ∧
      Is target_demands.by_schema (f "target") ∧
      ListOf column_demands.by_schema (f "columns") ∧
      ListOf status_demands.by_schema (f "status") ∧
      ListOf condition_demands.by_schema (f "conditions") ∧
      ListOf health_demands.by_schema (f "health") ∧
      ListOf action_demands.by_schema (f "actions")
  by_loader d :=
    let f := field ViewDefinition.FIELDS d
    is_struct ViewDefinition.FIELDS d = true ∧
      (∃ n h, f "api_version" = some (.number (.PosInt n h))) ∧
      Is target_demands.by_loader (f "target") ∧
      (ListOf column_demands.by_loader (f "columns") ∧ UniqueIds Column.FIELDS (f "columns")) ∧
      ListOf status_demands.by_loader (f "status") ∧
      ListOf condition_demands.by_loader (f "conditions") ∧
      (ListOf health_demands.by_loader (f "health") ∧ UniqueIds HealthCheck.FIELDS (f "health")) ∧
      (ListOf action_demands.by_loader (f "actions") ∧ UniqueIds LensAction.FIELDS (f "actions"))

end

/-! ## What the schema accepts -/

section

variable {o : Option Value} {v : Value} {P Q : Value → Prop}

theorem accepts_closed_fields (fields : List String) {required : List String}
    {properties : List (String × Schema)} :
    (Schema.closed required properties).accepts v = true ↔
      Keyed (properties.map Prod.fst) v ∧ (∀ k ∈ required, (field fields v k).isSome) ∧
        ∀ p ∈ properties, (field fields v p.1).all (fun x => p.2.accepts x) = true := by
  rw [accepts_closed]
  constructor
  · rintro ⟨m, rfl, hrequired, hkeys, hproperties⟩
    exact ⟨⟨m, rfl, hkeys⟩, hrequired, hproperties⟩
  · rintro ⟨⟨m, rfl, hkeys⟩, hrequired, hproperties⟩
    exact ⟨m, rfl, hrequired, hkeys, hproperties⟩

theorem text_accepts : text.accepts v = true ↔ ∃ s, v = .string s := by
  cases v <;> simp [text, Schema.accepts, SchemaType.holds]

theorem word_accepts {words : List String} :
    (word words).accepts v = true ↔ ∃ s, v = .string s ∧ s ∈ words := by
  unfold word
  rw [accepts_all]
  cases v <;> simp [Schema.accepts, SchemaType.holds]

theorem array_accepts {items : Schema} :
    (array_of items).accepts v = true ↔ ∃ vs, v = .array vs ∧ ∀ x ∈ vs, items.accepts x = true := by
  unfold array_of
  rw [accepts_all]
  cases v <;> simp [Schema.accepts, SchemaType.holds]

theorem required_text :
    o.isSome = true ∧ o.all (fun x => text.accepts x) = true ↔ IsText o := by
  cases o <;> simp [IsText, text_accepts]

theorem optional_text :
    o.all (fun x => text.accepts x) = true ↔ o = none ∨ IsText o := by
  cases o <;> simp [IsText, text_accepts]

theorem required_word {words : List String} :
    o.isSome = true ∧ o.all (fun x => (word words).accepts x) = true ↔
      TextIs (· ∈ words) o := by
  cases o <;> simp [TextIs, word_accepts]

theorem optional_word {words : List String} :
    o.all (fun x => (word words).accepts x) = true ↔ o = none ∨ TextIs (· ∈ words) o := by
  cases o <;> simp [TextIs, word_accepts]

/-- A word that is a string is the one of the list. -/
theorem text_is_word {words : List String} :
    TextIs (· ∈ words) o ↔ IsWord words o ∧ IsText o := by
  constructor
  · rintro ⟨s, rfl, hs⟩
    exact ⟨⟨_, s, rfl, rfl, hs⟩, s, rfl⟩
  · rintro ⟨⟨v, s, hv, hname, hs⟩, t, rfl⟩
    cases hv
    cases hname
    exact ⟨s, rfl, hs⟩

/-- A required word has to be a string as well. -/
theorem required_name {words : List String} :
    o.isSome = true ∧ o.all (fun x => (word words).accepts x) = true ↔
      IsWord words o ∧ IsText o := required_word.trans text_is_word

theorem optional_array {items : Schema} :
    o.all (fun x => (array_of items).accepts x) = true ↔
      ListOf (fun x => items.accepts x = true) o := by
  cases o <;> simp [ListOf, array_accepts]

theorem list_of_and : ListOf (fun x => P x ∧ Q x) o ↔ ListOf P o ∧ ListOf Q o := by
  constructor
  · rintro (rfl | ⟨vs, rfl, h⟩)
    · exact ⟨Or.inl rfl, Or.inl rfl⟩
    · exact ⟨Or.inr ⟨vs, rfl, fun v hv => (h v hv).1⟩, Or.inr ⟨vs, rfl, fun v hv => (h v hv).2⟩⟩
  · rintro ⟨rfl | ⟨vs, rfl, h⟩, hq⟩
    · exact Or.inl rfl
    · rcases hq with hq | ⟨ws, hws, hq⟩
      · cases hq
      · cases hws
        exact Or.inr ⟨vs, rfl, fun v hv => ⟨h v hv, hq v hv⟩⟩

theorem is_and : Is (fun x => P x ∧ Q x) o ↔ Is P o ∧ Is Q o := by
  constructor
  · rintro ⟨v, rfl, hp, hq⟩
    exact ⟨⟨v, rfl, hp⟩, v, rfl, hq⟩
  · rintro ⟨⟨v, rfl, hp⟩, w, hw, hq⟩
    cases hw
    exact ⟨v, rfl, hp, hq⟩

theorem optional_flag :
    o.all (fun x => (Schema.type .boolean).accepts x) = true ↔ o = none ∨ IsFlag o := by
  cases o with
  | none => simp
  | some v => cases v <;> simp [IsFlag, Schema.accepts, SchemaType.holds]

theorem any_accepts : o.all (fun x => Schema.any.accepts x) = true ↔ True := by
  cases o <;> simp [Schema.accepts]

theorem optional_text_not_null :
    (o = none ∨ o = some .null ∨ IsText o) ∧ o ≠ some .null ↔ o = none ∨ IsText o := by
  constructor
  · rintro ⟨h | h | h, hne⟩
    · exact Or.inl h
    · exact absurd h hne
    · exact Or.inr h
  · rintro (rfl | ⟨s, rfl⟩)
    · exact ⟨Or.inl rfl, by simp⟩
    · exact ⟨Or.inr (Or.inr ⟨s, rfl⟩), by simp⟩

/-! ### Ids and versions -/

theorem mem_one_of {cs : List Char} {set : String} (h : cs ∈ (one_of set).matches') :
    ∃ c ∈ set.toList, cs = [c] := by
  unfold one_of at h
  generalize set.toList = chars at h ⊢
  induction chars with
  | nil => exact absurd h (Language.notMem_zero cs)
  | cons c rest ih =>
    rcases h with h | h
    · exact ⟨c, List.mem_cons_self, h⟩
    · obtain ⟨d, hd, rfl⟩ := ih h
      exact ⟨d, List.mem_cons_of_mem _ hd, rfl⟩

/-- An id of the pattern starts with a letter or a digit, and has a dot. -/
theorem reverse_dns_parts {cs : List Char} (h : reverse_dns.rmatch cs = true) :
    '.' ∈ cs ∧ ∃ c ∈ cs, c ∈ lower_or_digit.toList := by
  rw [RegularExpression.rmatch_iff_matches'] at h
  obtain ⟨label, hlabel, rest, hrest, rfl⟩ := Language.mem_mul.mp h
  obtain ⟨first, hfirst, _, _, rfl⟩ := Language.mem_mul.mp hlabel
  obtain ⟨second, hsecond, _, _, rfl⟩ := Language.mem_mul.mp hrest
  obtain ⟨dot, hdot, _, _, rfl⟩ := Language.mem_mul.mp hsecond
  obtain ⟨c, hc, rfl⟩ := mem_one_of hfirst
  cases hdot
  exact ⟨by simp, c, by simp, hc⟩

theorem lower_or_digit_not_blank {c : Char} (hc : c ∈ lower_or_digit.toList) :
    is_whitespace c = false := by
  have hall : (lower_or_digit.toList.all fun c => !is_whitespace c) = true := by decide
  have hnot := List.all_eq_true.mp hall c hc
  rwa [Bool.not_eq_true'] at hnot

/-- What the schema asks of an id is more than what the loader asks. -/
theorem reverse_dns_passes {s : String} (h : reverse_dns.rmatch s.toList = true) :
    NotBlank s ∧ '.' ∈ s.toList := by
  obtain ⟨hdot, c, hc, hlower⟩ := reverse_dns_parts h
  refine ⟨?_, hdot⟩
  unfold NotBlank
  rw [ne_eq, trim_eq_empty]
  intro hblank
  have hspace := hblank c hc
  rw [lower_or_digit_not_blank hlower] at hspace
  cases hspace

theorem required_id :
    o.isSome = true ∧
        o.all (fun x => (Schema.all [.type .string, .pattern reverse_dns]).accepts x) = true ↔
      TextIs (fun s => NotBlank s ∧ '.' ∈ s.toList) o ∧
        TextIs (fun s => reverse_dns.rmatch s.toList = true) o := by
  have haccepts : ∀ v, (Schema.all [.type .string, .pattern reverse_dns]).accepts v = true ↔
      ∃ s, v = .string s ∧ reverse_dns.rmatch s.toList = true := by
    intro v
    rw [accepts_all]
    cases v <;> simp [Schema.accepts, SchemaType.holds]
  constructor
  · rintro ⟨hsome, hall⟩
    obtain ⟨v, rfl⟩ := Option.isSome_iff_exists.mp hsome
    obtain ⟨s, rfl, hs⟩ := (haccepts v).mp hall
    exact ⟨⟨s, rfl, reverse_dns_passes hs⟩, s, rfl, hs⟩
  · rintro ⟨_, s, rfl, hs⟩
    exact ⟨rfl, (haccepts _).mpr ⟨s, rfl, hs⟩⟩

theorem required_version :
    o.isSome = true ∧
        o.all (fun x => (Schema.all [.type .integer, .const 1]).accepts x) = true ↔
      ∃ n, o = some (.number n) ∧ n.value = 1 := by
  cases o with
  | none => simp
  | some v =>
    simp only [Option.isSome_some, Option.all_some, true_and, accepts_all, Option.some.injEq]
    cases v with
    | number n =>
      simp only [Schema.accepts, SchemaType.holds, List.forall_mem_cons, List.not_mem_nil,
        false_implies, implies_true, and_true, Value.number.injEq, exists_eq_left', beq_iff_eq,
        Int.cast_one]
      constructor
      · exact fun h => h.2
      · intro h
        rw [h]
        exact ⟨rfl, rfl⟩
    | _ => simp [Schema.accepts, SchemaType.holds]

/-! ### The nested schemas -/

theorem target_accepts :
    target_schema.accepts v = true ↔ target_demands.common v ∧ target_demands.by_schema v := by
  unfold target_schema target_demands
  rw [accepts_closed_fields GroupVersionKind.FIELDS]
  simp only [List.forall_mem_cons, List.not_mem_nil, false_implies, implies_true, and_true]
  constructor
  · rintro ⟨hkeyed, ⟨hversion, hkind⟩, hgroup, hversion', hkind'⟩
    exact ⟨⟨optional_text.mp hgroup, required_text.mp ⟨hversion, hversion'⟩,
      required_text.mp ⟨hkind, hkind'⟩⟩, hkeyed⟩
  · rintro ⟨⟨hgroup, hversion, hkind⟩, hkeyed⟩
    obtain ⟨hversion, hversion'⟩ := required_text.mpr hversion
    obtain ⟨hkind, hkind'⟩ := required_text.mpr hkind
    exact ⟨hkeyed, ⟨hversion, hkind⟩, optional_text.mpr hgroup, hversion', hkind'⟩

theorem condition_accepts :
    condition_schema.accepts v = true ↔
      condition_demands.common v ∧ condition_demands.by_schema v := by
  unfold condition_schema condition_demands
  rw [accepts_closed_fields condition_rule_fields]
  simp only [List.forall_mem_cons, List.not_mem_nil, false_implies, implies_true, and_true]
  constructor
  · rintro ⟨hkeyed, ⟨htype, hstatus, hlevel⟩, htype', hstatus', hlevel'⟩
    obtain ⟨hword, htext⟩ := required_name.mp ⟨hlevel, hlevel'⟩
    exact ⟨⟨required_text.mp ⟨htype, htype'⟩, required_word.mp ⟨hstatus, hstatus'⟩, hword⟩,
      hkeyed, htext⟩
  · rintro ⟨⟨htype, hstatus, hword⟩, hkeyed, htext⟩
    obtain ⟨htype, htype'⟩ := required_text.mpr htype
    obtain ⟨hstatus, hstatus'⟩ := required_word.mpr hstatus
    obtain ⟨hlevel, hlevel'⟩ := required_name.mpr ⟨hword, htext⟩
    exact ⟨hkeyed, ⟨htype, hstatus, hlevel⟩, htype', hstatus', hlevel'⟩

theorem action_accepts :
    action_schema.accepts v = true ↔ action_demands.common v ∧ action_demands.by_schema v := by
  unfold action_schema action_demands
  rw [accepts_closed_fields LensAction.FIELDS]
  simp only [List.forall_mem_cons, List.not_mem_nil, false_implies, implies_true, and_true,
    optional_word]
  constructor
  · rintro ⟨hkeyed, ⟨hid, hlabel⟩, hid', hlabel', hstate⟩
    exact ⟨⟨required_text.mp ⟨hid, hid'⟩, required_text.mp ⟨hlabel, hlabel'⟩,
      Or.imp_right (fun h => (text_is_word.mp h).2) hstate⟩, hkeyed, hstate⟩
  · rintro ⟨⟨hid, hlabel, _⟩, hkeyed, hstate⟩
    obtain ⟨hid, hid'⟩ := required_text.mpr hid
    obtain ⟨hlabel, hlabel'⟩ := required_text.mpr hlabel
    exact ⟨hkeyed, ⟨hid, hlabel⟩, hid', hlabel', hstate⟩

theorem list_accepts {items : Schema} {demands : Demands}
    (h : ∀ v, items.accepts v = true ↔ demands.common v ∧ demands.by_schema v) :
    o.all (fun x => (array_of items).accepts x) = true ↔
      ListOf demands.common o ∧ ListOf demands.by_schema o := by
  rw [optional_array, ← list_of_and]
  simp only [h]

theorem required_target :
    o.isSome = true ∧ o.all (fun x => target_schema.accepts x) = true ↔
      Is target_demands.common o ∧ Is target_demands.by_schema o := by
  rw [← is_and]
  cases o <;> simp [Is, target_accepts]

variable [AlphanumericTable]

theorem column_accepts :
    column_schema.accepts v = true ↔ column_demands.common v ∧ column_demands.by_schema v := by
  unfold column_schema column_demands
  rw [accepts_closed_fields Column.FIELDS]
  simp only [List.forall_mem_cons, List.not_mem_nil, false_implies, implies_true, and_true,
    optional_flag]
  constructor
  · rintro ⟨hkeyed, ⟨hid, hheader, hkind⟩, hid', hheader', hkind', hsortable, hfield⟩
    obtain ⟨hword, htext⟩ := required_name.mp ⟨hkind, hkind'⟩
    obtain ⟨hfield, hnull⟩ := optional_text_not_null.mpr (optional_text.mp hfield)
    exact ⟨⟨required_text.mp ⟨hid, hid'⟩, required_text.mp ⟨hheader, hheader'⟩, hword, hsortable,
      hfield⟩, hkeyed, htext, hnull⟩
  · rintro ⟨⟨hid, hheader, hword, hsortable, hfield⟩, hkeyed, htext, hnull⟩
    obtain ⟨hid, hid'⟩ := required_text.mpr hid
    obtain ⟨hheader, hheader'⟩ := required_text.mpr hheader
    obtain ⟨hkind, hkind'⟩ := required_name.mpr ⟨hword, htext⟩
    exact ⟨hkeyed, ⟨hid, hheader, hkind⟩, hid', hheader', hkind', hsortable,
      optional_text.mpr (optional_text_not_null.mp ⟨hfield, hnull⟩)⟩

theorem status_accepts :
    status_schema.accepts v = true ↔ status_demands.common v ∧ status_demands.by_schema v := by
  unfold status_schema status_demands
  rw [accepts_closed_fields status_rule_fields]
  simp only [List.forall_mem_cons, List.not_mem_nil, false_implies, implies_true, and_true,
    any_accepts, ne_eq, ← Option.isSome_iff_ne_none]
  constructor
  · rintro ⟨hkeyed, ⟨hfield, hop, hvalue, hlevel⟩, hfield', hop', _, hlevel'⟩
    obtain ⟨hopword, hoptext⟩ := required_name.mp ⟨hop, hop'⟩
    obtain ⟨hword, htext⟩ := required_name.mp ⟨hlevel, hlevel'⟩
    exact ⟨⟨required_text.mp ⟨hfield, hfield'⟩, hopword, hvalue, hword⟩, hkeyed, hoptext, htext⟩
  · rintro ⟨⟨hfield, hopword, hvalue, hword⟩, hkeyed, hoptext, htext⟩
    obtain ⟨hfield, hfield'⟩ := required_text.mpr hfield
    obtain ⟨hop, hop'⟩ := required_name.mpr ⟨hopword, hoptext⟩
    obtain ⟨hlevel, hlevel'⟩ := required_name.mpr ⟨hword, htext⟩
    exact ⟨hkeyed, ⟨hfield, hop, hvalue, hlevel⟩, hfield', hop', trivial, hlevel'⟩

theorem health_accepts :
    health_schema.accepts v = true ↔ health_demands.common v ∧ health_demands.by_schema v := by
  unfold health_schema health_demands
  rw [accepts_closed_fields HealthCheck.FIELDS]
  simp only [List.forall_mem_cons, List.not_mem_nil, false_implies, implies_true, and_true,
    any_accepts, ne_eq, ← Option.isSome_iff_ne_none]
  constructor
  · rintro ⟨hkeyed, ⟨hid, hlabel, hfield, hop, hvalue, hlevel⟩, hid', hlabel', hfield', hop', _,
      hlevel'⟩
    obtain ⟨hopword, hoptext⟩ := required_name.mp ⟨hop, hop'⟩
    obtain ⟨hword, htext⟩ := required_name.mp ⟨hlevel, hlevel'⟩
    exact ⟨⟨required_text.mp ⟨hid, hid'⟩, required_text.mp ⟨hlabel, hlabel'⟩,
      required_text.mp ⟨hfield, hfield'⟩, hopword, hvalue, hword⟩, hkeyed, hoptext, htext⟩
  · rintro ⟨⟨hid, hlabel, hfield, hopword, hvalue, hword⟩, hkeyed, hoptext, htext⟩
    obtain ⟨hid, hid'⟩ := required_text.mpr hid
    obtain ⟨hlabel, hlabel'⟩ := required_text.mpr hlabel
    obtain ⟨hfield, hfield'⟩ := required_text.mpr hfield
    obtain ⟨hop, hop'⟩ := required_name.mpr ⟨hopword, hoptext⟩
    obtain ⟨hlevel, hlevel'⟩ := required_name.mpr ⟨hword, htext⟩
    exact ⟨hkeyed, ⟨hid, hlabel, hfield, hop, hvalue, hlevel⟩, hid', hlabel', hfield', hop',
      trivial, hlevel'⟩

/-- The schema accepts a document that meets the common demands and its own. -/
theorem schema_accepts {d : Value} :
    VIEWDEF_SCHEMA.accepts d = true ↔
      document_demands.common d ∧ document_demands.by_schema d := by
  unfold VIEWDEF_SCHEMA document_demands
  rw [accepts_closed_fields ViewDefinition.FIELDS]
  simp only [List.forall_mem_cons, List.not_mem_nil, false_implies, implies_true, and_true,
    list_accepts fun _ => column_accepts, list_accepts fun _ => status_accepts,
    list_accepts fun _ => condition_accepts, list_accepts fun _ => health_accepts,
    list_accepts fun _ => action_accepts]
  constructor
  · rintro ⟨hkeyed, ⟨hid, hversion, htarget⟩, hid', hversion', htarget', ⟨c1, c2⟩, ⟨s1, s2⟩,
      ⟨n1, n2⟩, ⟨h1, h2⟩, ⟨a1, a2⟩⟩
    obtain ⟨i1, i2⟩ := required_id.mp ⟨hid, hid'⟩
    obtain ⟨t1, t2⟩ := required_target.mp ⟨htarget, htarget'⟩
    exact ⟨⟨i1, required_version.mp ⟨hversion, hversion'⟩, t1, c1, s1, n1, h1, a1⟩,
      hkeyed, i2, t2, c2, s2, n2, h2, a2⟩
  · rintro ⟨⟨i1, hversion, t1, c1, s1, n1, h1, a1⟩, hkeyed, i2, t2, c2, s2, n2, h2, a2⟩
    obtain ⟨hid, hid'⟩ := required_id.mpr ⟨i1, i2⟩
    obtain ⟨hversion, hversion'⟩ := required_version.mpr hversion
    obtain ⟨htarget, htarget'⟩ := required_target.mpr ⟨t1, t2⟩
    exact ⟨hkeyed, ⟨hid, hversion, htarget⟩, hid', hversion', htarget', ⟨c1, c2⟩, ⟨s1, s2⟩,
      ⟨n1, n2⟩, ⟨h1, h2⟩, ⟨a1, a2⟩⟩

end

/-! ## What the loader takes -/

section

variable {α : Type} {o : Option Value} {v : Value}

theorem required_variant {names : List (String × α)} {x : α} :
    required (variant names) o = some x ↔
      ∃ v s, o = some v ∧ variant_name v = some s ∧ names.lookup s = some x := by
  simp [required, variant, Option.bind_eq_some_iff]

theorem required_boolean {b : Bool} : required boolean o = some b ↔ o = some (.bool b) := by
  cases o with
  | none => simp [required]
  | some v => cases v <;> simp [required, boolean]

theorem variant_is_word (names : List (String × α)) :
    (∃ x, required (variant names) o = some x) ↔ IsWord (names.map Prod.fst) o := by
  constructor
  · rintro ⟨x, hx⟩
    obtain ⟨v, s, hv, hs, hlookup⟩ := required_variant.mp hx
    exact ⟨v, s, hv, hs, lookup_isSome.mp ⟨x, hlookup⟩⟩
  · rintro ⟨v, s, hv, hs, hmem⟩
    obtain ⟨x, hx⟩ := lookup_isSome.mpr hmem
    exact ⟨x, required_variant.mpr ⟨v, s, hv, hs, hx⟩⟩

/-- Words of a table that stand for the same variants say the same. -/
theorem is_word_iff {names : List (String × α)} {words : List String} {xs : List α}
    (h : ∀ p ∈ names, p.1 ∈ words ↔ p.2 ∈ xs) {x : α}
    (hx : required (variant names) o = some x) : IsWord words o ↔ x ∈ xs := by
  obtain ⟨v, s, rfl, hs, hlookup⟩ := required_variant.mp hx
  have hmem : s ∈ words ↔ x ∈ xs := h (s, x) (lookup_mem hlookup)
  rw [← hmem]
  constructor
  · rintro ⟨w, t, hw, ht, hin⟩
    cases hw
    rw [hs] at ht
    cases ht
    exact hin
  · intro hin
    exact ⟨v, s, rfl, hs, hin⟩

theorem compares_iff {op : RuleOp} (hop : required (variant RULE_OPS) o = some op) :
    Compares o (some v) ↔ Comparable op v := by
  have horder : IsWord ["gt", "gte", "lt", "lte"] o ↔ op ∈ [.Gt, .Gte, .Lt, .Lte] :=
    is_word_iff (by decide) hop
  have hcontains : IsWord ["contains"] o ↔ op ∈ [RuleOp.Contains] :=
    is_word_iff (by decide) hop
  unfold Compares Comparable
  rw [horder, hcontains]
  simp [Is]

theorem target_loads :
    (∃ t, GroupVersionKind.deserialize v = some t ∧ trim t.version ≠ "" ∧ trim t.kind ≠ "") ↔
      target_demands.common v ∧ target_demands.by_loader v := by
  simp only [GroupVersionKind.deserialize_eq_some, required_string, with_default_string]
  constructor
  · rintro ⟨t, ⟨hv, hgroup, hversion, hkind⟩, hversion', hkind'⟩
    exact ⟨⟨hgroup.imp And.left fun h => ⟨_, h⟩, ⟨_, hversion⟩, _, hkind⟩, hv,
      ⟨_, hversion, hversion'⟩, _, hkind, hkind'⟩
  · rintro ⟨⟨hgroup, _, _⟩, hv, ⟨version, hversion, hversion'⟩, kind, hkind, hkind'⟩
    rcases hgroup with hgroup | ⟨group, hgroup⟩
    · exact ⟨⟨"", version, kind⟩, ⟨hv, Or.inl ⟨hgroup, rfl⟩, hversion, hkind⟩, hversion', hkind'⟩
    · exact ⟨⟨group, version, kind⟩, ⟨hv, Or.inr hgroup, hversion, hkind⟩, hversion', hkind'⟩

theorem condition_loads :
    (∃ r, deserialize_condition_rule v = some r ∧ trim r.condition_type ≠ "" ∧
        is_condition_status r.status = true) ↔
      condition_demands.common v ∧ condition_demands.by_loader v := by
  have hstatus : ∀ s, is_condition_status s = true ↔ s ∈ ["True", "False", "Unknown"] := by
    intro s
    unfold is_condition_status
    split <;> simp_all
  simp only [deserialize_condition_rule_eq_some, required_string, hstatus]
  constructor
  · rintro ⟨r, ⟨hv, htype, hword, hlevel⟩, hblank, hmem⟩
    exact ⟨⟨⟨_, htype⟩, ⟨_, hword, hmem⟩, (variant_is_word STATUS_LEVELS).mp ⟨_, hlevel⟩⟩, hv, _,
      htype, hblank⟩
  · rintro ⟨⟨_, ⟨status, hword, hmem⟩, hlevel⟩, hv, condition_type, htype, hblank⟩
    obtain ⟨level, hlevel⟩ := (variant_is_word STATUS_LEVELS).mpr hlevel
    exact ⟨⟨condition_type, status, level⟩, ⟨hv, htype, hword, hlevel⟩, hblank, hmem⟩

theorem action_loads :
    (∃ a, LensAction.deserialize v = some a ∧ trim a.id ≠ "") ↔
      action_demands.common v ∧ action_demands.by_loader v := by
  simp only [LensAction.deserialize_eq_some, required_string, with_default_string]
  constructor
  · rintro ⟨a, ⟨hv, hid, hlabel, hstate⟩, hblank⟩
    exact ⟨⟨⟨_, hid⟩, ⟨_, hlabel⟩, hstate.imp And.left fun h => ⟨_, h⟩⟩, hv, _, hid, hblank⟩
  · rintro ⟨⟨_, ⟨label, hlabel⟩, hstate⟩, hv, id, hid, hblank⟩
    rcases hstate with hstate | ⟨state, hstate⟩
    · exact ⟨⟨id, label, default_action_state⟩, ⟨hv, hid, hlabel, Or.inl ⟨hstate, rfl⟩⟩, hblank⟩
    · exact ⟨⟨id, label, state⟩, ⟨hv, hid, hlabel, Or.inr hstate⟩, hblank⟩

theorem list_loads {de : Value → Option α} {Sound : α → Prop} {demands : Demands}
    (h : ∀ v, (∃ x, de v = some x ∧ Sound x) ↔ demands.common v ∧ demands.by_loader v) :
    (∃ xs, with_default [] (vec de) o = some xs ∧ ∀ x ∈ xs, Sound x) ↔
      ListOf demands.common o ∧ ListOf demands.by_loader o := by
  rw [← list_of_and]
  simp only [with_default_vec, ListOf, ← h, ← items_sound]
  constructor
  · rintro ⟨xs, ⟨rfl, _⟩ | ⟨vs, rfl, hread⟩, hsound⟩
    · exact Or.inl rfl
    · exact Or.inr ⟨vs, rfl, xs, hread, hsound⟩
  · rintro (rfl | ⟨vs, rfl, xs, hread, hsound⟩)
    · exact ⟨[], Or.inl ⟨rfl, rfl⟩, by simp⟩
    · exact ⟨xs, Or.inr ⟨vs, rfl, hread⟩, hsound⟩

/-- What is read of the items of a list, in their order. -/
theorem list_reads {de : Value → Option α} {xs : List α}
    (hread : with_default [] (vec de) o = some xs) :
    List.Forall₂ (fun v x => de v = some x) (elements o) xs := by
  rcases with_default_vec.mp hread with ⟨rfl, rfl⟩ | ⟨vs, rfl, hvs⟩
  · exact List.Forall₂.nil
  · exact items_eq_some.mp hvs

theorem unique_ids_iff {fields : List String} {de : Value → Option α} {id : α → String}
    (hid : ∀ v x, de v = some x → field fields v "id" = some (.string (id x))) {xs : List α}
    (hread : with_default [] (vec de) o = some xs) :
    UniqueIds fields o ↔ (xs.map id).Nodup := by
  have hids : (elements o).map (fun v => field fields v "id") =
      (xs.map id).map fun s => some (.string s) := by
    rw [List.map_map, ← List.forall₂_eq_eq_eq, List.forall₂_map_left_iff,
      List.forall₂_map_right_iff]
    exact (list_reads hread).imp hid
  unfold UniqueIds
  rw [hids, List.nodup_map_iff]
  intro s t hst
  simpa using hst

variable [AlphanumericTable]

theorem field_bound_iff {kind : ColumnKind} {path : Option String} {k : Option Value}
    (hkind : required (variant COLUMN_KINDS) k = some kind)
    (hpath : with_default none (option string) o = some path) :
    FieldBound kind path ↔
      (¬ IsWord ["status"] k → TextIs (· ≠ "") o) ∧
        ∀ s, o = some (.string s) → s ≠ "" → valid_field_path s = true := by
  have hstatus : IsWord ["status"] k ↔ kind ∈ [ColumnKind.Status] := is_word_iff (by decide) hkind
  unfold FieldBound
  rw [hstatus, List.mem_singleton]
  rcases with_default_option_string.mp hpath with ⟨h | h, rfl⟩ | ⟨s, h, rfl⟩
  · simp [h, TextIs]
  · simp [h, TextIs]
  · simp [h, TextIs]

theorem column_loads :
    (∃ c, Column.deserialize v = some c ∧ trim c.id ≠ "" ∧
        valid_header_key c.header_key = true ∧ FieldBound c.kind c.field) ↔
      column_demands.common v ∧ column_demands.by_loader v := by
  simp only [Column.deserialize_eq_some, required_string, required_boolean]
  constructor
  · rintro ⟨c, ⟨hv, hid, hheader, hkind, hsortable, hfield⟩, hblank, hkey, hbound⟩
    obtain ⟨hneeds, hpath⟩ := (field_bound_iff hkind hfield).mp hbound
    refine ⟨⟨⟨_, hid⟩, ⟨_, hheader⟩, (variant_is_word COLUMN_KINDS).mp ⟨_, hkind⟩,
        Or.inr ⟨_, hsortable⟩, ?_⟩,
      hv, ⟨_, hid, hblank⟩, ⟨_, hheader, hkey⟩, by simp [hsortable], hneeds, hpath⟩
    rcases with_default_option_string.mp hfield with ⟨h | h, _⟩ | ⟨s, h, _⟩
    · exact Or.inl h
    · exact Or.inr (Or.inl h)
    · exact Or.inr (Or.inr ⟨s, h⟩)
  · rintro ⟨⟨_, _, hkind, hsortable, hfield⟩, hv, ⟨id, hid, hblank⟩, ⟨header, hheader, hkey⟩,
      hsome, hbound⟩
    obtain ⟨kind, hkind⟩ := (variant_is_word COLUMN_KINDS).mpr hkind
    obtain ⟨sortable, hsortable⟩ := hsortable.resolve_left hsome
    have hread : ∃ path, with_default none (option string) (field Column.FIELDS v "field") =
        some path := by
      rcases hfield with h | h | ⟨s, h⟩
      · exact ⟨none, with_default_option_string.mpr (Or.inl ⟨Or.inl h, rfl⟩)⟩
      · exact ⟨none, with_default_option_string.mpr (Or.inl ⟨Or.inr h, rfl⟩)⟩
      · exact ⟨some s, with_default_option_string.mpr (Or.inr ⟨s, h, rfl⟩)⟩
    obtain ⟨path, hpath⟩ := hread
    exact ⟨⟨⟨id, kind, path⟩, header, sortable⟩, ⟨hv, hid, hheader, hkind, hsortable, hpath⟩,
      hblank, hkey, (field_bound_iff hkind hpath).mpr hbound⟩

theorem status_loads :
    (∃ r, deserialize_status_rule v = some r ∧ valid_field_path r.field = true ∧
        Comparable r.op r.value) ↔
      status_demands.common v ∧ status_demands.by_loader v := by
  simp only [deserialize_status_rule_eq_some, required_string]
  constructor
  · rintro ⟨r, ⟨hv, hfield, hop, hvalue, hlevel⟩, hpath, hcompare⟩
    refine ⟨⟨⟨_, hfield⟩, (variant_is_word RULE_OPS).mp ⟨_, hop⟩, by simp [hvalue],
      (variant_is_word STATUS_LEVELS).mp ⟨_, hlevel⟩⟩, hv, ⟨_, hfield, hpath⟩, ?_⟩
    rw [hvalue]
    exact (compares_iff hop).mpr hcompare
  · rintro ⟨⟨_, hop, hvalue, hlevel⟩, hv, ⟨path, hfield, hpath⟩, hcompare⟩
    obtain ⟨op, hop⟩ := (variant_is_word RULE_OPS).mpr hop
    obtain ⟨value, hvalue⟩ := Option.ne_none_iff_exists'.mp hvalue
    obtain ⟨level, hlevel⟩ := (variant_is_word STATUS_LEVELS).mpr hlevel
    rw [hvalue] at hcompare
    exact ⟨⟨path, op, value, level⟩, ⟨hv, hfield, hop, hvalue, hlevel⟩, hpath,
      (compares_iff hop).mp hcompare⟩

theorem health_loads :
    (∃ c, HealthCheck.deserialize v = some c ∧ trim c.id ≠ "" ∧
        valid_header_key c.label_key = true ∧ valid_field_path c.field = true ∧
        Comparable c.op c.value) ↔
      health_demands.common v ∧ health_demands.by_loader v := by
  simp only [HealthCheck.deserialize_eq_some, required_string]
  constructor
  · rintro ⟨c, ⟨hv, hid, hlabel, hfield, hop, hvalue, hlevel⟩, hblank, hkey, hpath, hcompare⟩
    refine ⟨⟨⟨_, hid⟩, ⟨_, hlabel⟩, ⟨_, hfield⟩, (variant_is_word RULE_OPS).mp ⟨_, hop⟩,
      by simp [hvalue], (variant_is_word STATUS_LEVELS).mp ⟨_, hlevel⟩⟩, hv, ⟨_, hid, hblank⟩,
      ⟨_, hlabel, hkey⟩, ⟨_, hfield, hpath⟩, ?_⟩
    rw [hvalue]
    exact (compares_iff hop).mpr hcompare
  · rintro ⟨⟨_, _, _, hop, hvalue, hlevel⟩, hv, ⟨id, hid, hblank⟩, ⟨label, hlabel, hkey⟩,
      ⟨path, hfield, hpath⟩, hcompare⟩
    obtain ⟨op, hop⟩ := (variant_is_word RULE_OPS).mpr hop
    obtain ⟨value, hvalue⟩ := Option.ne_none_iff_exists'.mp hvalue
    obtain ⟨level, hlevel⟩ := (variant_is_word STATUS_LEVELS).mpr hlevel
    rw [hvalue] at hcompare
    exact ⟨⟨id, label, path, op, value, level⟩,
      ⟨hv, hid, hlabel, hfield, hop, hvalue, hlevel⟩, hblank, hkey, hpath,
      (compares_iff hop).mp hcompare⟩

/-- The loader takes a document that meets the common demands and its own. -/
theorem loads_iff {debug : String → String} {d : Value} :
    (∃ vd, Loads debug d vd) ↔ document_demands.common d ∧ document_demands.by_loader d := by
  have hcolumn : ∀ v c, Column.deserialize v = some c →
      field Column.FIELDS v "id" = some (.string c.id) :=
    fun v c h => required_string.mp (Column.deserialize_eq_some.mp h).2.1
  have hcheck : ∀ v c, HealthCheck.deserialize v = some c →
      field HealthCheck.FIELDS v "id" = some (.string c.id) :=
    fun v c h => required_string.mp (HealthCheck.deserialize_eq_some.mp h).2.1
  have haction : ∀ v a, LensAction.deserialize v = some a →
      field LensAction.FIELDS v "id" = some (.string a.id) :=
    fun v a h => required_string.mp (LensAction.deserialize_eq_some.mp h).2.1
  simp only [Loads, ViewDefinition.deserialize_eq_some, validate_viewdef_eq_nil, required_string,
    required_u32]
  constructor
  · rintro ⟨vd, ⟨hd, hid, ⟨_, hfits, hversion⟩, htarget, hcolumns, hstatus, hconditions, hhealth,
      hactions⟩, hvalid⟩
    have hone : (Number.PosInt vd.api_version hfits).value = 1 := by
      simp [Number.value, hvalid.api_version, LENS_SCHEMA_VERSION]
    obtain ⟨t, ht, hread⟩ := required_eq_some.mp htarget
    obtain ⟨t1, t2⟩ := target_loads.mp ⟨_, hread, hvalid.target⟩
    obtain ⟨c1, c2⟩ := (list_loads fun _ => column_loads).mp ⟨_, hcolumns, hvalid.columns⟩
    obtain ⟨s1, s2⟩ := (list_loads fun _ => status_loads).mp ⟨_, hstatus, hvalid.status⟩
    obtain ⟨n1, n2⟩ := (list_loads fun _ => condition_loads).mp ⟨_, hconditions, hvalid.conditions⟩
    obtain ⟨h1, h2⟩ := (list_loads fun _ => health_loads).mp ⟨_, hhealth, hvalid.health⟩
    obtain ⟨a1, a2⟩ := (list_loads fun _ => action_loads).mp ⟨_, hactions, hvalid.actions⟩
    exact ⟨⟨⟨_, hid, hvalid.id⟩, ⟨_, hversion, hone⟩, ⟨t, ht, t1⟩, c1, s1, n1,
      h1, a1⟩, hd, ⟨_, _, hversion⟩, ⟨t, ht, t2⟩,
      ⟨c2, (unique_ids_iff hcolumn hcolumns).mpr hvalid.column_ids⟩, s2, n2,
      ⟨h2, (unique_ids_iff hcheck hhealth).mpr hvalid.health_ids⟩,
      a2, (unique_ids_iff haction hactions).mpr hvalid.action_ids⟩
  · rintro ⟨⟨⟨id, hid, hid'⟩, ⟨n, hversion, hone⟩, t1, c1, s1, n1, h1, a1⟩, hd, ⟨m, hm, hversion'⟩,
      t2, ⟨c2, hcolumn_ids⟩, s2, n2, ⟨h2, hhealth_ids⟩, a2, haction_ids⟩
    obtain ⟨t, ht, t3⟩ := is_and.mpr ⟨t1, t2⟩
    obtain ⟨target, hread, htarget⟩ := target_loads.mpr t3
    obtain ⟨columns, hcolumns, c3⟩ := (list_loads fun _ => column_loads).mpr ⟨c1, c2⟩
    obtain ⟨status, hstatus, s3⟩ := (list_loads fun _ => status_loads).mpr ⟨s1, s2⟩
    obtain ⟨conditions, hconditions, n3⟩ := (list_loads fun _ => condition_loads).mpr ⟨n1, n2⟩
    obtain ⟨health, hhealth, h3⟩ := (list_loads fun _ => health_loads).mpr ⟨h1, h2⟩
    obtain ⟨actions, hactions, a3⟩ := (list_loads fun _ => action_loads).mpr ⟨a1, a2⟩
    rw [hversion', Option.some.injEq, Value.number.injEq] at hversion
    subst hversion
    have hm1 : m = 1 := by simpa [Number.value] using hone
    subst hm1
    exact ⟨⟨id, 1, target, columns, status, conditions, health, actions⟩,
      ⟨hd, hid, ⟨(by decide : 1 < 2 ^ 32), hm, hversion'⟩, required_eq_some.mpr ⟨t, ht, hread⟩,
        hcolumns, hstatus, hconditions, hhealth, hactions⟩,
      ⟨hid', rfl, htarget, c3, (unique_ids_iff hcolumn hcolumns).mp hcolumn_ids, s3, a3,
        (unique_ids_iff haction hactions).mp haction_ids, n3, h3,
        (unique_ids_iff hcheck hhealth).mp hhealth_ids⟩⟩

/-! ## The states of the actions -/

def DeclaredAllowed (v : Value) : Prop :=
  field LensAction.FIELDS v "state" = none ∨
    field LensAction.FIELDS v "state" = some (.string "allowed")

/-- For every document that loads, an action is allowed exactly where it is declared so. -/
def ActionsAsDeclared (debug : String → String) (d : Value) : Prop :=
  ∀ vd, Loads debug d vd →
    List.Forall₂ (fun v action => action.state = .Allowed ↔ DeclaredAllowed v)
      (elements (field ViewDefinition.FIELDS d "actions")) vd.actions_as_semantic

omit [AlphanumericTable] in
theorem semantic_state_declared {v : Value} {a : LensAction}
    (h : LensAction.deserialize v = some a) :
    (a.semantic_state = .Allowed ↔ DeclaredAllowed v) ↔ KnownState v := by
  obtain ⟨_, _, _, hstate⟩ := LensAction.deserialize_eq_some.mp h
  unfold DeclaredAllowed KnownState
  rw [semantic_state_allowed]
  rcases with_default_string.mp hstate with ⟨hnone, hdefault⟩ | hsome
  · simp [hnone, ← hdefault, default_action_state]
  · simp only [hsome, reduceCtorEq, false_or, Option.some.injEq, Value.string.injEq, TextIs,
      exists_eq_left', List.mem_cons, List.not_mem_nil, or_false]
    by_cases hallowed : a.state = "allowed"
    · simp [hallowed]
    · simp only [hallowed, iff_false, false_or]
      tauto

/-- The actions of a loaded document come out as declared exactly when each of their states
is a known word: any other word is allowed. -/
theorem actions_as_declared_iff {debug : String → String} {d : Value} {vd : ViewDefinition}
    (h : Loads debug d vd) :
    List.Forall₂ (fun v action => action.state = .Allowed ↔ DeclaredAllowed v)
        (elements (field ViewDefinition.FIELDS d "actions")) vd.actions_as_semantic ↔
      ∀ v ∈ elements (field ViewDefinition.FIELDS d "actions"), KnownState v := by
  obtain ⟨_, _, _, _, _, _, _, _, hactions⟩ := ViewDefinition.deserialize_eq_some.mp h.1
  unfold ViewDefinition.actions_as_semantic
  rw [List.forall₂_map_right_iff]
  exact forall₂_iff_forall (list_reads hactions) fun v a hread => semantic_state_declared hread

/-- Schema and loader agree on a document, and its actions come out as declared, exactly
when the document misses something that both ask, or meets what only the one asks just
where it meets what only the other asks. -/
theorem schema_agrees_with_loader_iff (debug : String → String) (d : Value) :
    ((VIEWDEF_SCHEMA.accepts d = true ↔ ∃ vd, Loads debug d vd) ∧ ActionsAsDeclared debug d) ↔
      (document_demands.common d →
        (document_demands.by_schema d ↔ document_demands.by_loader d)) := by
  rw [schema_accepts, loads_iff, and_congr_right_iff]
  constructor
  · exact fun h => h.1
  · intro h
    refine ⟨h, ?_⟩
    intro vd hvd
    rw [actions_as_declared_iff hvd]
    obtain ⟨hcommon, hloader⟩ := loads_iff.mp ⟨vd, hvd⟩
    obtain ⟨_, _, _, _, _, _, _, hactions⟩ := (h hcommon).mpr hloader
    rcases hactions with hnone | ⟨vs, hvs, hall⟩
    · simp [hnone, elements]
    · rw [hvs]
      exact fun v hv => (hall v hv).2

end

/-- A lens that spells the state of its action with a capital letter. -/
def capital_forbidden : Value :=
  .object [
    ("actions", .array [.object [("id", .string "drop"), ("label_key", .string "action.drop"),
      ("state", .string "Forbidden")]]),
    ("api_version", .number (.PosInt 1 (by decide))),
    ("id", .string "com.example.lens"),
    ("target", .object [("kind", .string "Pod"), ("version", .string "v1")])]

theorem a_mistyped_state_is_allowed :
    ¬ ((VIEWDEF_SCHEMA.accepts capital_forbidden = true ↔
        ∃ vd, @Loads ascii_alphanumeric id capital_forbidden vd) ∧
      @ActionsAsDeclared ascii_alphanumeric id capital_forbidden) := by
  rintro ⟨_, h⟩
  have hloads : @Loads ascii_alphanumeric id capital_forbidden
      ⟨"com.example.lens", 1, ⟨"", "v1", "Pod"⟩, [], [], [], [],
        [⟨"drop", "action.drop", "Forbidden"⟩]⟩ := ⟨rfl, by decide⟩
  have hactions := h _ hloads
  have hdeclared : DeclaredAllowed (.object [("id", .string "drop"),
      ("label_key", .string "action.drop"), ("state", .string "Forbidden")]) := by
    cases hactions with
    | cons hfirst _ => exact hfirst.mp rfl
  rcases hdeclared with hnone | hallowed
  · cases hnone
  · exact absurd (Value.string.inj (Option.some.inj hallowed)) (by decide)

end kaptein_cli.schema
