-- JSON Schema, as far as closed documents need it: types, fixed words, one constant,
-- anchored patterns, and the members and items of what is nested. An assertion about
-- another type of value than the one at hand holds.
import Kaptein.Lib.Double
import Mathlib.Computability.RegularExpressions

open serde_json

namespace json_schema

/-! ## Schemas -/

inductive SchemaType where
  | null
  | boolean
  | integer
  | number
  | string
  | array
  | object

def SchemaType.holds : SchemaType → Value → Bool
  | .null, .null => true
  | .boolean, .bool _ => true
  | .integer, .number n => n.value.isInt
  | .number, .number _ => true
  | .string, .string _ => true
  | .array, .array _ => true
  | .object, .object _ => true
  | _, _ => false

/-- The keywords, each as a schema of its own. `only` is `additionalProperties: false`
beside the properties of these names. -/
inductive Schema where
  | any
  | type (t : SchemaType)
  | enum (words : List String)
  | const (n : Int)
  | pattern (r : RegularExpression Char)
  | required (names : List String)
  | property (name : String) (s : Schema)
  | only (names : List String)
  | items (s : Schema)
  | both (s t : Schema)

def Schema.accepts : Schema → Value → Bool
  | .any, _ => true
  | .type t, v => t.holds v
  | .enum words, .string s => words.contains s
  | .enum _, _ => false
  | .const n, .number m => m.value == n
  | .const _, _ => false
  | .pattern r, .string s => r.rmatch s.toList
  | .required names, .object m => names.all fun k => (Map.get m k).isSome
  | .property name s, .object m => (Map.get m name).all fun v => s.accepts v
  | .only names, .object m => (Map.keys m).all fun k => names.contains k
  | .items s, .array vs => vs.all fun v => s.accepts v
  | .both s t, v => s.accepts v && t.accepts v
  | _, _ => true

/-- The keywords of one schema together. -/
def Schema.all (keywords : List Schema) : Schema := keywords.foldr .both .any

/-- An object of these properties and no others. -/
def Schema.closed (required : List String) (properties : List (String × Schema)) : Schema :=
  .all ([.type .object, .required required, .only (properties.map Prod.fst)] ++
    properties.map fun p => .property p.1 p.2)

/-! ## What a schema accepts -/

section

variable {v : Value}

theorem accepts_all (keywords : List Schema) :
    (Schema.all keywords).accepts v = true ↔ ∀ s ∈ keywords, s.accepts v = true := by
  unfold Schema.all
  induction keywords with
  | nil => simp [Schema.accepts]
  | cons s keywords ih => simp [Schema.accepts, ih]

/-- A closed object has its required members and no others, and each member that it has
is accepted. -/
theorem accepts_closed (required : List String) (properties : List (String × Schema)) :
    (Schema.closed required properties).accepts v = true ↔
      ∃ m, v = .object m ∧ (∀ k ∈ required, (Map.get m k).isSome) ∧
        (∀ k ∈ Map.keys m, k ∈ properties.map Prod.fst) ∧
        ∀ p ∈ properties, (Map.get m p.1).all (fun v => p.2.accepts v) = true := by
  unfold Schema.closed
  rw [accepts_all]
  simp only [List.forall_mem_append, List.forall_mem_cons, List.forall_mem_map]
  cases v with
  | object m => simp [Schema.accepts, SchemaType.holds, and_assoc]
  | _ => simp [Schema.accepts, SchemaType.holds]

end

end json_schema
