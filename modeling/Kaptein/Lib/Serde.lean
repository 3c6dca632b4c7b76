-- Derived deserializers of `serde` over `serde_json::Value`. A struct comes from an
-- object, where it ignores unknown members, or from an array of its fields in their
-- order. A unit variant comes from its name, or from an object with that one member
-- and null.
import Kaptein.Lib.Value
import Mathlib.Data.List.Forall2

open serde_json

namespace serde

variable {α β : Type}

/-! ## Scalars and sequences -/

def string (v : Value) : Option String := v.as_str

def boolean : Value → Option Bool
  | .bool b => some b
  | _ => none

def u32 : Value → Option Nat
  | .number (.PosInt n _) => if n < 2 ^ 32 then some n else none
  | _ => none

def option (de : Value → Option α) : Value → Option (Option α)
  | .null => some none
  | v => (de v).map some

def items (de : Value → Option α) : List Value → Option (List α)
  | [] => some []
  | v :: vs => (de v).bind fun x => (items de vs).map fun xs => x :: xs

def vec (de : Value → Option α) : Value → Option (List α)
  | .array vs => items de vs
  | _ => none

def variant_name : Value → Option String
  | .string s => some s
  | .object [(s, .null)] => some s
  | _ => none

/-- A unit variant of an enum, by the table of its names. -/
def variant (names : List (String × α)) (v : Value) : Option α :=
  (variant_name v).bind fun s => names.lookup s

/-! ## Structs -/

/-- A field of a struct as the value writes it. -/
def field (fields : List String) (v : Value) (k : String) : Option Value :=
  match v with
  | .object m => Map.get m k
  | .array vs => vs[fields.idxOf k]?
  | _ => none

/-- An object, or an array with no item too many. -/
def is_struct (fields : List String) : Value → Bool
  | .object _ => true
  | .array vs => decide (vs.length ≤ fields.length)
  | _ => false

def struct (fields : List String) (de : (String → Option Value) → Option α) (v : Value) :
    Option α :=
  if is_struct fields v then de (field fields v) else none

def required (de : Value → Option α) (o : Option Value) : Option α := o.bind de

/-- A field with `#[serde(default)]`. -/
def with_default (d : α) (de : Value → Option α) : Option Value → Option α
  | none => some d
  | some v => de v

/-! ## What they read -/

theorem struct_eq_some {fields : List String} {de : (String → Option Value) → Option α}
    {v : Value} {x : α} :
    struct fields de v = some x ↔ is_struct fields v = true ∧ de (field fields v) = some x := by
  unfold struct
  rw [Option.ite_none_right_eq_some]

/-- A value with one member is an object, where a field is a member. -/
theorem field_of_get {fields : List String} {v w : Value} {k' : String} (h : v.get k' = some w)
    (k : String) : field fields v k = v.get k := by
  cases v with
  | object m => rfl
  | _ => cases h

theorem string_eq_some {v : Value} {s : String} : string v = some s ↔ v = .string s := by
  unfold string
  cases v <;> simp [Value.as_str]

theorem required_string {o : Option Value} {s : String} :
    required string o = some s ↔ o = some (.string s) := by
  simp [required, Option.bind_eq_some_iff, string_eq_some]

theorem with_default_string {o : Option Value} {d s : String} :
    with_default d string o = some s ↔ o = none ∧ d = s ∨ o = some (.string s) := by
  cases o <;> simp [with_default, string_eq_some]

/-- An optional text is missing, null, or a string. -/
theorem with_default_option_string {o : Option Value} {x : Option String} :
    with_default none (option string) o = some x ↔
      (o = none ∨ o = some .null) ∧ x = none ∨ ∃ s, o = some (.string s) ∧ x = some s := by
  cases o with
  | none => simp [with_default, eq_comm]
  | some v => cases v <;> simp [with_default, option, string, Value.as_str, eq_comm]

theorem required_eq_some {de : Value → Option α} {o : Option Value} {x : α} :
    required de o = some x ↔ ∃ v, o = some v ∧ de v = some x := by
  simp [required, Option.bind_eq_some_iff]

theorem required_u32 {o : Option Value} {n : Nat} :
    required u32 o = some n ↔ n < 2 ^ 32 ∧ ∃ h, o = some (.number (.PosInt n h)) := by
  rw [required_eq_some]
  constructor
  · rintro ⟨v, rfl, hv⟩
    unfold u32 at hv
    split at hv
    · rw [Option.ite_none_right_eq_some] at hv
      obtain ⟨hn, heq⟩ := hv
      cases heq
      exact ⟨hn, _, rfl⟩
    · cases hv
  · rintro ⟨hn, h, rfl⟩
    exact ⟨_, rfl, if_pos hn⟩

theorem items_cons {de : Value → Option α} {v : Value} {vs : List Value} {xs : List α} :
    items de (v :: vs) = some xs ↔
      ∃ x ys, de v = some x ∧ items de vs = some ys ∧ xs = x :: ys := by
  simp only [items, Option.bind_eq_some_iff, Option.map_eq_some_iff]
  constructor
  · rintro ⟨x, hx, ys, hys, rfl⟩
    exact ⟨x, ys, hx, hys, rfl⟩
  · rintro ⟨x, ys, hx, hys, rfl⟩
    exact ⟨x, hx, ys, hys, rfl⟩

theorem items_eq_some {de : Value → Option α} {vs : List Value} {xs : List α} :
    items de vs = some xs ↔ List.Forall₂ (fun v x => de v = some x) vs xs := by
  induction vs generalizing xs with
  | nil => simp [items, List.forall₂_nil_left_iff, eq_comm]
  | cons v vs ih =>
    rw [items_cons, List.forall₂_cons_left_iff]
    constructor
    · rintro ⟨x, ys, hx, hys, rfl⟩
      exact ⟨x, ys, hx, ih.mp hys, rfl⟩
    · rintro ⟨x, ys, hx, hys, rfl⟩
      exact ⟨x, ys, hx, ih.mpr hys, rfl⟩

/-- A sequence of sound items is read item by item. -/
theorem items_sound {de : Value → Option α} {Sound : α → Prop} {vs : List Value} :
    (∃ xs, items de vs = some xs ∧ ∀ x ∈ xs, Sound x) ↔
      ∀ v ∈ vs, ∃ x, de v = some x ∧ Sound x := by
  induction vs with
  | nil => simp [items]
  | cons v vs ih =>
    rw [List.forall_mem_cons, ← ih]
    constructor
    · rintro ⟨xs, hread, hsound⟩
      obtain ⟨x, ys, hx, hys, rfl⟩ := items_cons.mp hread
      rw [List.forall_mem_cons] at hsound
      exact ⟨⟨x, hx, hsound.1⟩, ys, hys, hsound.2⟩
    · rintro ⟨⟨x, hx, hsound⟩, ys, hys, hrest⟩
      exact ⟨x :: ys, items_cons.mpr ⟨x, ys, hx, hys, rfl⟩,
        List.forall_mem_cons.mpr ⟨hsound, hrest⟩⟩

theorem with_default_vec {de : Value → Option α} {o : Option Value} {xs : List α} :
    with_default [] (vec de) o = some xs ↔
      o = none ∧ xs = [] ∨ ∃ vs, o = some (.array vs) ∧ items de vs = some xs := by
  cases o with
  | none => simp [with_default, eq_comm]
  | some v => cases v <;> simp [with_default, vec]

/-- Where a relation of an item and what it is read as depends on the item alone, it holds
along the list when each item meets it. -/
theorem forall₂_iff_forall {R S : β → α → Prop} {P : β → Prop} {vs : List β} {xs : List α}
    (h : List.Forall₂ R vs xs) (hS : ∀ v x, R v x → (S v x ↔ P v)) :
    List.Forall₂ S vs xs ↔ ∀ v ∈ vs, P v := by
  induction h with
  | nil => simp
  | cons hread _ ih => rw [List.forall₂_cons, List.forall_mem_cons, ih, hS _ _ hread]

theorem lookup_mem {names : List (String × α)} {s : String} {x : α}
    (h : names.lookup s = some x) : (s, x) ∈ names := by
  induction names with
  | nil => cases h
  | cons p names ih =>
    rw [List.lookup_cons] at h
    by_cases hs : s = p.1
    · simp only [hs, beq_self_eq_true] at h
      cases h
      simp [hs]
    · have hne : (s == p.1) = false := by simpa using hs
      simp only [hne] at h
      exact List.mem_cons_of_mem _ (ih h)

theorem lookup_isSome {names : List (String × α)} {s : String} :
    (∃ x, names.lookup s = some x) ↔ s ∈ names.map Prod.fst := by
  induction names with
  | nil => simp
  | cons p names ih =>
    rw [List.lookup_cons]
    by_cases h : s = p.1
    · simp [h]
    · have hne : (s == p.1) = false := by simpa using h
      simp only [hne, List.map_cons, List.mem_cons, h, false_or]
      exact ih

end serde
