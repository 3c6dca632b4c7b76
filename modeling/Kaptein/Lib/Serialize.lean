-- Derived serializers of `serde` into JSON. A struct is an object of its fields in
-- their order, and the derived deserializers read it back behind the parser.
import Kaptein.Lib.JsonText
import Kaptein.Lib.Serde

open serde_json

namespace serde

/-! ## Serializers -/

/-- A unit variant is its name. -/
def serialize_variant {α : Type} [DecidableEq α] (names : List (String × α)) (a : α) : Value :=
  .string (((names.find? fun p => p.2 = a).map Prod.fst).getD "")

def serialize_option {α : Type} (ser : α → Value) : Option α → Value
  | some a => ser a
  | none => .null

/-- The values of a signed type of 64 bits. -/
def FitsI64 (i : Int) : Prop := -2 ^ 63 ≤ i ∧ i < 2 ^ 63

instance (i : Int) : Decidable (FitsI64 i) := inferInstanceAs (Decidable (_ ∧ _))

/-- An integer outside of its type has no text, and null stands for it. -/
def serialize_i64 (i : Int) : Value :=
  if fits : FitsI64 i then
    if h : 0 ≤ i then .number (.PosInt i.toNat (by have := fits.2; omega))
    else .number (.NegInt i ⟨fits.1, by omega⟩)
  else .null

def serialize_u64 (n : Nat) : Value :=
  if fits : n < 2 ^ 64 then .number (.PosInt n fits) else .null

/-! ## Deserializers -/

def i64 : Value → Option Int
  | .number n => n.as_i64
  | _ => none

def u64 : Value → Option Nat
  | .number (.PosInt n _) => some n
  | _ => none

/-! ## What is printed is read -/

/-- The value has no doubles and is not deeper than this, and once it was printed and parsed,
the deserializer makes this of it. -/
structure Reads {α : Type} (d : Nat) (de : Value → Option α) (v : Value) (a : α) : Prop where
  whole : v.Whole
  depth : v.depth ≤ d
  stored : de v.stored = some a

theorem Reads.fits {α : Type} {d : Nat} {de : Value → Option α} {v : Value} {a : α}
    (h : Reads d de v a) : v.Whole ∧ v.depth ≤ d := ⟨h.whole, h.depth⟩

/-- A text is read as what it was printed of. -/
theorem Reads.text [FloatText] [FloatRead] {α : Type} {d : Nat} {de : Value → Option α}
    {v : Value} {a : α} (h : Reads d de v a) (hd : d < 128) :
    (from_str v.to_string).bind de = some a := by
  rw [from_str_to_string (Value.Whole.reads_back v h.whole) (Nat.lt_of_le_of_lt h.depth hd),
    Option.bind_some]
  exact h.stored

theorem reads_string (d : Nat) (s : String) : Reads d string (.string s) s where
  whole := by simp [Value.Whole]
  depth := by simp [Value.depth]
  stored := rfl

theorem reads_boolean (d : Nat) (b : Bool) : Reads d boolean (.bool b) b where
  whole := by simp [Value.Whole]
  depth := by simp [Value.depth]
  stored := rfl

theorem reads_i64 (d : Nat) {i : Int} (fits : FitsI64 i) : Reads d i64 (serialize_i64 i) i := by
  unfold serialize_i64
  rw [dif_pos fits]
  split
  · refine ⟨by simp [Value.Whole], by simp [Value.depth], ?_⟩
    show (if i.toNat < 2 ^ 63 then some (i.toNat : Int) else none) = some i
    have hhigh := fits.2
    rw [if_pos (by omega), Int.toNat_of_nonneg ‹_›]
  · exact ⟨by simp [Value.Whole], by simp [Value.depth], rfl⟩

theorem reads_u64 (d : Nat) {n : Nat} (fits : n < 2 ^ 64) : Reads d u64 (serialize_u64 n) n := by
  unfold serialize_u64
  rw [dif_pos fits]
  exact ⟨by simp [Value.Whole], by simp [Value.depth], rfl⟩

theorem reads_variant {α : Type} [DecidableEq α] {names : List (String × α)} {a : α} (d : Nat)
    (h : variant names (serialize_variant names a) = some a) :
    Reads d (variant names) (serialize_variant names a) a where
  whole := by simp [serialize_variant, Value.Whole]
  depth := by simp [serialize_variant, Value.depth]
  stored := h

theorem reads_none {α : Type} (d : Nat) (de : Value → Option α) :
    Reads d (option de) .null none where
  whole := by simp [Value.Whole]
  depth := by simp [Value.depth]
  stored := rfl

theorem Reads.some {α : Type} {d : Nat} {de : Value → Option α} {v : Value} {a : α}
    (h : Reads d de v a) (hv : v ≠ .null) : Reads d (option de) v (some a) where
  whole := h.whole
  depth := h.depth
  stored := by
    have hmap : option de v.stored = (de v.stored).map Option.some := by
      cases v with
      | null => exact absurd rfl hv
      | _ => rfl
    rw [hmap, h.stored]
    rfl

theorem reads_option {α : Type} {d : Nat} {de : Value → Option α} {ser : α → Value}
    (h : ∀ a, Reads d de (ser a) a) (hser : ∀ a, ser a ≠ .null) (o : Option α) :
    Reads d (option de) (serialize_option ser o) o := by
  cases o with
  | none => exact reads_none d de
  | some a => exact (h a).some (hser a)

theorem reads_option_string (d : Nat) (o : Option String) :
    Reads d (option string) (serialize_option .string o) o :=
  reads_option (reads_string d) (by simp) o

theorem items_whole {vs : List Value} (h : ∀ v ∈ vs, v.Whole) : Value.ItemsWhole vs := by
  induction vs with
  | nil => simp [Value.ItemsWhole]
  | cons v vs ih =>
    rw [List.forall_mem_cons] at h
    rw [Value.ItemsWhole]
    exact ⟨h.1, ih h.2⟩

theorem depth_of_items_le {vs : List Value} {d : Nat} (h : ∀ v ∈ vs, v.depth ≤ d) :
    Value.depth_of_items vs ≤ d := by
  induction vs with
  | nil => simp [Value.depth_of_items]
  | cons v vs ih =>
    rw [List.forall_mem_cons] at h
    rw [Value.depth_of_items]
    exact Nat.max_le.mpr ⟨h.1, ih h.2⟩

/-- A list is the array of its items. -/
theorem reads_vec {α : Type} {d : Nat} {de : Value → Option α} {ser : α → Value} {as : List α}
    (h : ∀ a ∈ as, Reads d de (ser a) a) : Reads (d + 1) (vec de) (.array (as.map ser)) as where
  whole := by
    rw [Value.Whole]
    apply items_whole
    intro v hv
    obtain ⟨a, ha, rfl⟩ := List.mem_map.mp hv
    exact (h a ha).whole
  depth := by
    rw [Value.depth]
    apply Nat.succ_le_succ
    apply depth_of_items_le
    intro v hv
    obtain ⟨a, ha, rfl⟩ := List.mem_map.mp hv
    exact (h a ha).depth
  stored := by
    rw [Value.stored]
    show items de (Value.stored_items (as.map ser)) = Option.some as
    induction as with
    | nil =>
      rw [List.map_nil, Value.stored_items]
      rfl
    | cons a as ih =>
      rw [List.forall_mem_cons] at h
      rw [List.map_cons, Value.stored_items, items, h.1.stored, Option.bind_some, ih h.2]
      rfl

theorem members_whole {m : List (String × Value)} (h : ∀ p ∈ m, p.2.Whole) :
    Value.MembersWhole m := by
  induction m with
  | nil => simp [Value.MembersWhole]
  | cons p m ih =>
    rw [List.forall_mem_cons] at h
    rw [Value.MembersWhole]
    exact ⟨h.1, ih h.2⟩

theorem depth_of_members_le {m : List (String × Value)} {d : Nat} (h : ∀ p ∈ m, p.2.depth ≤ d) :
    Value.depth_of_members m ≤ d := by
  induction m with
  | nil => simp [Value.depth_of_members]
  | cons p m ih =>
    rw [List.forall_mem_cons] at h
    rw [Value.depth_of_members]
    exact Nat.max_le.mpr ⟨h.1, ih h.2⟩

/-- The fields of an object that was printed and parsed are its members. -/
theorem field_stored {m : List (String × Value)} (hkeys : (Map.keys m).Nodup)
    (fields : List String) (k : String) :
    field fields (Value.object m).stored k = (Map.get m k).map Value.stored := by
  rw [Value.stored, field, Map.get_insert_all (by rwa [keys_stored_members]), get_stored_members]
  exact Option.or_none

/-- A struct is read if its fields are, from the members of these keys. -/
theorem reads_struct {α : Type} {d : Nat} {fields : List String} {m : List (String × Value)}
    {de : (String → Option Value) → Option α} {a : α} (hkeys : (Map.keys m).Nodup)
    (hmembers : ∀ p ∈ m, p.2.Whole ∧ p.2.depth ≤ d)
    (hde : de (fun k => (Map.get m k).map Value.stored) = some a) :
    Reads (d + 1) (struct fields de) (.object m) a where
  whole := by
    rw [Value.Whole]
    exact members_whole fun p hp => (hmembers p hp).1
  depth := by
    rw [Value.depth]
    exact Nat.succ_le_succ (depth_of_members_le fun p hp => (hmembers p hp).2)
  stored := by
    have hfield : field fields (Value.object m).stored = fun k => (Map.get m k).map Value.stored :=
      funext (field_stored hkeys fields)
    rw [struct, hfield, hde, Value.stored]
    rfl

end serde
