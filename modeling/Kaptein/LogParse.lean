-- Log lines as columns (`logparse.rs`), and the table that `kaptein logs --json`
-- prints of them. A line that is no JSON object keeps its text; of the others
-- every member stands in the column of its key.
import Kaptein.Lib.JsonText

open serde_json

namespace serde_json

/-! ## A number as a double -/

/-- The bits of `n as f64`: the nearest double, and of two as near the even one. -/
def f64_bits (n : Nat) : Nat :=
  if n = 0 then 0
  else
    let e := n.log2
    if e ≤ 52 then (e + 1022) * 2 ^ 52 + n * 2 ^ (52 - e)
    else
      let q := n / 2 ^ (e - 52)
      let r := n % 2 ^ (e - 52)
      let half := 2 ^ (e - 53)
      (e + 1022) * 2 ^ 52 + (if half < r ∨ r = half ∧ q % 2 = 1 then q + 1 else q)

theorem f64_bits_lt {n : Nat} (h : n < 2 ^ 64) : f64_bits n < 1088 * 2 ^ 52 := by
  unfold f64_bits
  split_ifs with h0
  · decide
  · have hlog : n.log2 ≤ 63 := by
      have hlt : n.log2 < 64 := (Nat.log2_lt h0).mpr h
      omega
    dsimp only
    split_ifs with hsmall hup
    all_goals
      generalize he : n.log2 = e at hlog
      have hn : n < 2 ^ (e + 1) := he ▸ Nat.lt_log2_self
    · have hle : n * 2 ^ (52 - e) < 2 ^ (e + 1) * 2 ^ (52 - e) :=
        Nat.mul_lt_mul_of_pos_right hn (Nat.two_pow_pos _)
      rw [← Nat.pow_add, show e + 1 + (52 - e) = 53 by omega] at hle
      omega
    all_goals
      have hq : n / 2 ^ (e - 52) < 2 ^ 53 := by
        rw [Nat.div_lt_iff_lt_mul (Nat.two_pow_pos _), ← Nat.pow_add]
        exact Nat.lt_of_lt_of_le hn (Nat.pow_le_pow_right (by decide) (by omega))
      omega

/-- The double of these bits, with its sign. -/
def f64_of_bits (negative : Bool) (b : Nat) (h : b < 1088 * 2 ^ 52) : F64 where
  bits := UInt64.ofNat (if negative then 2 ^ 63 + b else b)
  finite := by
    have hfits : (if negative then 2 ^ 63 + b else b) < 2 ^ 64 := by split <;> omega
    rw [UInt64.toNat_ofNat_of_lt' hfits]
    split <;> omega

/-- `Number::as_f64`. -/
def Number.as_f64 : Number → F64
  | .Float x => x
  | .NegInt i fits => f64_of_bits true (f64_bits i.natAbs) (f64_bits_lt (by omega))
  | .PosInt n fits => f64_of_bits false (f64_bits n) (f64_bits_lt fits)

example : (Number.PosInt (2 ^ 63 + 1024) (by decide)).as_f64.bits = 0x43E0000000000000 := by decide

def Value.as_object : Value → Option Map
  | .object m => some m
  | _ => none

end serde_json

/-- The text that `Display` gives of a double. -/
class FloatDisplay where
  display : F64 → String

namespace kaptein_viewmodel.logparse

inductive LogCell where
  | Text (s : String)
  | Number (i : Int)
  | Float (x : F64)
  | Bool (b : Bool)
  | Null
  deriving DecidableEq

/-- One row: the line as it came, and the columns of a JSON object. -/
structure ParsedLogLine where
  raw : String
  columns : BTreeMap String LogCell

/-- Arrays and objects become their own text. -/
def json_to_cell [FloatText] : Value → LogCell
  | .string s => .Text s
  | .number n =>
    match n.as_i64 with
    | some i => .Number i
    | none => .Float n.as_f64
  | .bool b => .Bool b
  | .null => .Null
  | other => .Text other.to_string

def parse_json_line [FloatText] [FloatRead] (line : String) : Option (BTreeMap String LogCell) :=
  (from_str line).bind fun value =>
    value.as_object.map fun obj =>
      BTreeMap.from_entries (obj.map fun p => (p.1, json_to_cell p.2))

/-- The keys of all lines. -/
def infer_columns (parsed : List ParsedLogLine) : List String :=
  (parsed.foldl (fun keys line => line.columns.keys.foldl (fun keys k => keys.insert k ()) keys)
    BTreeMap.empty).keys

def parse_log_stream [FloatText] [FloatRead] (lines : List String) : List ParsedLogLine :=
  lines.map fun raw => { raw, columns := (parse_json_line raw).getD BTreeMap.empty }

/-! ## The columns of a stream -/

theorem mem_keys_foldl_insert (ks : List String) (keys : BTreeMap String Unit) (c : String) :
    c ∈ (ks.foldl (fun keys k => keys.insert k ()) keys).keys ↔ c ∈ keys.keys ∨ c ∈ ks := by
  induction ks generalizing keys with
  | nil => simp
  | cons k ks ih =>
    rw [List.foldl_cons, ih, BTreeMap.mem_keys_insert, List.mem_cons]
    tauto

theorem mem_infer_columns {parsed : List ParsedLogLine} {c : String} :
    c ∈ infer_columns parsed ↔ ∃ line ∈ parsed, c ∈ line.columns.keys := by
  have hkeys : ∀ keys : BTreeMap String Unit, c ∈ (parsed.foldl (fun keys line =>
      line.columns.keys.foldl (fun keys k => keys.insert k ()) keys) keys).keys ↔
        c ∈ keys.keys ∨ ∃ line ∈ parsed, c ∈ line.columns.keys := by
    induction parsed with
    | nil => simp
    | cons line parsed ih =>
      intro keys
      rw [List.foldl_cons, ih, mem_keys_foldl_insert]
      simp [or_assoc]
  rw [infer_columns, hkeys]
  simp [BTreeMap.keys, BTreeMap.empty]

theorem infer_columns_sorted (parsed : List ParsedLogLine) :
    (infer_columns parsed).Pairwise (· < ·) := BTreeMap.keys_sorted _

/-! ## The columns of a line -/

theorem lookup_map_entries {α : Type} (f : Value → α) (m : Map) (k : String) :
    (m.map fun p => (p.1, f p.2)).lookup k = (Map.get m k).map f := by
  induction m with
  | nil => rfl
  | cons p m ih =>
    obtain ⟨k', v⟩ := p
    rw [List.map_cons, btree.lookup_cons, ih, Map.get_cons]
    by_cases h : k = k'
    · rw [if_pos h, if_pos h.symm, Option.map_some]
    · rw [if_neg h, if_neg (Ne.symm h)]

/-- A line has columns if it is the text of an object, one for each of its members. -/
theorem parse_json_line_eq_some [FloatText] [FloatRead] {line : String}
    {columns : BTreeMap String LogCell} :
    parse_json_line line = some columns ↔ ∃ m, from_str line = some (.object m) ∧
      columns.entries = m.map fun p => (p.1, json_to_cell p.2) := by
  have hentries : ∀ m : Map, m.Ordered →
      (BTreeMap.from_entries (m.map fun p => (p.1, json_to_cell p.2))).entries =
        m.map fun p => (p.1, json_to_cell p.2) := by
    intro m hm
    apply BTreeMap.from_entries_of_sorted
    rw [btree.Sorted, List.map_map]
    exact hm
  rw [parse_json_line]
  constructor
  · intro h
    obtain ⟨v, hv, h⟩ := Option.bind_eq_some_iff.mp h
    obtain ⟨m, hm, rfl⟩ := Option.map_eq_some_iff.mp h
    cases v with
    | object m' =>
      cases hm
      exact ⟨m, hv, hentries m (from_str_ordered hv)⟩
    | _ => cases hm
  · rintro ⟨m, hm, hcolumns⟩
    rw [hm, Option.bind_some]
    refine Option.map_eq_some_iff.mpr ⟨m, rfl, ?_⟩
    cases columns
    rw [BTreeMap.mk.injEq, hentries m (from_str_ordered hm)]
    exact hcolumns.symm

theorem parse_json_line_eq_none [FloatText] [FloatRead] {line : String}
    (h : ∀ m, from_str line ≠ some (.object m)) : parse_json_line line = none := by
  rw [Option.eq_none_iff_forall_ne_some]
  intro columns hcolumns
  obtain ⟨m, hm, -⟩ := parse_json_line_eq_some.mp hcolumns
  exact h m hm

end kaptein_viewmodel.logparse
