-- Places in a JSON value: a list of steps, each into a member of an object or
-- to an item of an array.
import Kaptein.Lib.Value

namespace serde_json

inductive Step where
  | field (name : String)
  | index (i : Nat)
  deriving DecidableEq

def Value.step (v : Value) : Step → Option Value
  | .field name => v.get name
  | .index i => v.get_index i

/-- The value at a place, or `none` when a step does not apply. -/
def Value.follow (v : Value) : List Step → Option Value
  | [] => some v
  | s :: p => (v.step s).bind fun w => w.follow p

@[simp] theorem Value.follow_nil (v : Value) : v.follow [] = some v := rfl

theorem Value.follow_cons (v : Value) (s : Step) (p : List Step) :
    v.follow (s :: p) = (v.step s).bind fun w => w.follow p := rfl

theorem Value.follow_append (v : Value) (p q : List Step) :
    v.follow (p ++ q) = (v.follow p).bind fun w => w.follow q := by
  induction p generalizing v with
  | nil => rfl
  | cons s p ih =>
    rw [List.cons_append, follow_cons, follow_cons]
    cases v.step s with
    | none => rfl
    | some w => exact ih w

/-- A value that has the place, with `null` there. -/
def Value.holding : List Step → Value
  | [] => .null
  | .field name :: p => .object [(name, holding p)]
  | .index i :: p => .array (List.replicate i .null ++ [holding p])

theorem Value.step_holding (s : Step) (p : List Step) :
    (holding (s :: p)).step s = some (holding p) := by
  cases s with
  | field name => simp [holding, step, get, Map.get]
  | index i => simp [holding, step, get_index]

theorem Value.follow_holding (p : List Step) : (holding p).follow p = some .null := by
  induction p with
  | nil => rfl
  | cons s p ih => rw [follow_cons, step_holding, Option.bind_some, ih]

/-- Below `n` items there is no item `n`. -/
theorem Value.step_holding_of_lt (p : List Step) (n : Nat) (h : ∀ i, .index i ∈ p → i < n) :
    (holding p).step (.index n) = none := by
  match p with
  | [] => rfl
  | .field name :: p => rfl
  | .index i :: p =>
    have hi : i < n := h i List.mem_cons_self
    simp only [holding, step, get_index]
    rw [List.getElem?_eq_none]
    simp
    omega

/-- Both places are absent, or both hold the same scalar, an object with the same
keys, or an array of the same length. -/
inductive SameNode : Option Value → Option Value → Prop
  | absent : SameNode none none
  | equal (v : Value) : SameNode (some v) (some v)
  | object {m n : Map} (h : Map.keys n = Map.keys m) :
    SameNode (some (.object m)) (some (.object n))
  | array {xs ys : List Value} (h : ys.length = xs.length) :
    SameNode (some (.array xs)) (some (.array ys))

theorem SameNode.refl (v : Option Value) : SameNode v v := by
  cases v with
  | none => exact .absent
  | some v => exact .equal v

theorem SameNode.trans {u v w : Option Value} (huv : SameNode u v) (hvw : SameNode v w) :
    SameNode u w := by
  cases huv with
  | absent => exact hvw
  | equal => exact hvw
  | object h =>
    cases hvw with
    | equal => exact .object h
    | object h' => exact .object (h'.trans h)
  | array h =>
    cases hvw with
    | equal => exact .array h
    | array h' => exact .array (h'.trans h)

end serde_json
