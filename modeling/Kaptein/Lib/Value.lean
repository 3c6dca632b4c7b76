-- JSON values as `serde_json` holds them. A map is a `BTreeMap`, so its
-- members stand in the order of their keys, each key once.
import Mathlib.Tactic.SplitIfs
import Kaptein.Lib.Text

namespace serde_json

/-- A finite double, by its bits. -/
structure F64 where
  bits : UInt64
  finite : bits.toNat / 2 ^ 52 % 2 ^ 11 ≠ 2 ^ 11 - 1
  deriving DecidableEq

/-- Both zeros of the doubles. -/
def F64.is_zero (x : F64) : Bool := x.bits.toNat % 2 ^ 63 == 0

/-- `==` on finite doubles: the two zeros are equal, and else the bits decide. -/
def F64.eq (x y : F64) : Bool := x.bits == y.bits || (x.is_zero && y.is_zero)

/-- The shortest decimal text of a double, as the printer of `serde_json` gives it. -/
class FloatText where
  float_text : F64 → String

inductive Number where
  | PosInt (n : Nat) (fits : n < 2 ^ 64)
  | NegInt (i : Int) (fits : -2 ^ 63 ≤ i ∧ i < 0)
  | Float (x : F64)
  deriving DecidableEq

inductive Value where
  | null
  | bool (b : Bool)
  | number (n : Number)
  | string (s : String)
  | array (items : List Value)
  | object (members : List (String × Value))

abbrev Map := List (String × Value)

/-! ## Numbers -/

def Number.as_i64 : Number → Option Int
  | .PosInt n _ => if n < 2 ^ 63 then some n else none
  | .NegInt i _ => some i
  | .Float _ => none

def Number.is_i64 (n : Number) : Bool := n.as_i64.isSome

def Number.eq : Number → Number → Bool
  | .PosInt a _, .PosInt b _ => a == b
  | .NegInt a _, .NegInt b _ => a == b
  | .Float a, .Float b => a.eq b
  | _, _ => false

def Number.to_string [FloatText] : Number → String
  | .PosInt n _ => toString n
  | .NegInt i _ => toString i
  | .Float x => FloatText.float_text x

/-! ## Maps -/

namespace Map

/-- `Map::get`. -/
def get (m : Map) (k : String) : Option Value := (m.find? fun p => p.1 == k).map Prod.snd

/-- `Map::insert`: an old value of the key is replaced. -/
def insert (k : String) (v : Value) : Map → Map
  | [] => [(k, v)]
  | (k', v') :: m =>
    if k < k' then (k, v) :: (k', v') :: m
    else if k = k' then (k, v) :: m
    else (k', v') :: insert k v m

/-- The entries of a list put into a map one after the other. -/
def insert_all (m entries : Map) : Map := entries.foldl (fun acc p => insert p.1 p.2 acc) m

/-- A change in place of the value of one key, as through `Map::get_mut`. -/
def modify (k : String) (f : Value → Value) (m : Map) : Map :=
  m.map fun p => if p.1 == k then (p.1, f p.2) else p

def keys (m : Map) : List String := m.map Prod.fst

theorem get_cons (k k' : String) (v : Value) (m : Map) :
    get ((k', v) :: m) k = if k' = k then some v else get m k := by
  unfold get
  by_cases h : k' = k
  · simp [h]
  · simp [h]

@[simp] theorem get_insert_self (k : String) (v : Value) (m : Map) :
    get (insert k v m) k = some v := by
  induction m with
  | nil => simp [insert, get_cons]
  | cons p m ih =>
    obtain ⟨k', v'⟩ := p
    unfold insert
    split_ifs with h1 h2
    · simp [get_cons]
    · simp [get_cons]
    · rw [get_cons, if_neg (Ne.symm h2)]
      exact ih

theorem get_insert_ne (k k' : String) (v : Value) (m : Map) (h : k ≠ k') :
    get (insert k v m) k' = get m k' := by
  induction m with
  | nil => simp [insert, get_cons, h]
  | cons p m ih =>
    obtain ⟨k₁, v₁⟩ := p
    unfold insert
    split_ifs with h1 h2
    · simp [get_cons, h]
    · subst h2
      simp [get_cons, h]
    · rw [get_cons, get_cons, ih]

/-- Entries that do not name the key leave its value as it was. -/
theorem get_insert_all_ne (entries m : Map) (k : String) (h : k ∉ keys entries) :
    get (insert_all m entries) k = get m k := by
  induction entries generalizing m with
  | nil => rfl
  | cons p entries ih =>
    simp only [keys, List.map_cons, List.mem_cons, not_or] at h
    calc get (insert_all m (p :: entries)) k
        = get (insert_all (insert p.1 p.2 m) entries) k := rfl
      _ = get (insert p.1 p.2 m) k := ih _ h.2
      _ = get m k := get_insert_ne _ _ _ _ (Ne.symm h.1)

theorem keys_cons (k : String) (v : Value) (m : Map) : keys ((k, v) :: m) = k :: keys m := rfl

@[simp] theorem keys_modify (k : String) (f : Value → Value) (m : Map) :
    keys (modify k f m) = keys m := by
  simp only [keys, modify, List.map_map]
  apply List.map_congr_left
  intro p _
  simp only [Function.comp_apply]
  split <;> rfl

theorem insert_all_append (m a b : Map) :
    insert_all m (a ++ b) = insert_all (insert_all m a) b := by
  simp [insert_all, List.foldl_append]

end Map

/-! ## Reads of a value -/

namespace Value

/-- `Value::get` with a string: a member of an object. -/
def get (v : Value) (k : String) : Option Value :=
  match v with
  | .object m => Map.get m k
  | _ => none

/-- `Value::get` with a number: an item of an array. -/
def get_index (v : Value) (i : Nat) : Option Value :=
  match v with
  | .array items => items[i]?
  | _ => none

def as_str : Value → Option String
  | .string s => some s
  | _ => none

def as_i64 : Value → Option Int
  | .number n => n.as_i64
  | _ => none

def as_array : Value → Option (List Value)
  | .array items => some items
  | _ => none

/-- A change in place of one member of an object. Any other value stays. -/
def modify (v : Value) (k : String) (f : Value → Value) : Value :=
  match v with
  | .object m => .object (Map.modify k f m)
  | v => v

mutual
/-- `==` on values. Two numbers of different kinds are never equal. -/
def eq : Value → Value → Bool
  | .null, .null => true
  | .bool a, .bool b => a == b
  | .number a, .number b => a.eq b
  | .string a, .string b => a == b
  | .array xs, .array ys => eq_items xs ys
  | .object xs, .object ys => eq_members xs ys
  | _, _ => false
def eq_items : List Value → List Value → Bool
  | [], [] => true
  | x :: xs, y :: ys => eq x y && eq_items xs ys
  | _, _ => false
def eq_members : List (String × Value) → List (String × Value) → Bool
  | [], [] => true
  | (k, x) :: xs, (k', y) :: ys => k == k' && eq x y && eq_members xs ys
  | _, _ => false
end

end Value

/-! ## The compact text of a value -/

/-- One character inside a JSON string. -/
def escape_char (c : Char) : String :=
  if c = '"' then "\\\""
  else if c = '\\' then "\\\\"
  else if c = '\n' then "\\n"
  else if c = '\r' then "\\r"
  else if c = '\t' then "\\t"
  else if c.toNat = 8 then "\\b"
  else if c.toNat = 12 then "\\f"
  else if c.toNat < 32 then
    "\\u00" ++ String.ofList [Nat.digitChar (c.toNat / 16), Nat.digitChar (c.toNat % 16)]
  else String.ofList [c]

def quoted (s : String) : String := "\"" ++ String.join (s.toList.map escape_char) ++ "\""

mutual
/-- `Value::to_string`: no spaces, members in the order of the map. -/
def Value.to_string [FloatText] : Value → String
  | .null => "null"
  | .bool b => if b then "true" else "false"
  | .number n => n.to_string
  | .string s => quoted s
  | .array items => "[" ++ ",".intercalate (Value.texts_of_items items) ++ "]"
  | .object members => "\x7b" ++ ",".intercalate (Value.texts_of_members members) ++ "\x7d"
def Value.texts_of_items [FloatText] : List Value → List String
  | [] => []
  | v :: vs => v.to_string :: Value.texts_of_items vs
def Value.texts_of_members [FloatText] : List (String × Value) → List String
  | [] => []
  | (k, v) :: m => (quoted k ++ ":" ++ v.to_string) :: Value.texts_of_members m
end

end serde_json
