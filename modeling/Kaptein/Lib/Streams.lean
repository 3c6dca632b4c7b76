-- Streams of items that may fail. A consumer that stops at the first error sees the
-- items before it.
import Mathlib.Data.List.Basic

namespace streams

variable {ε α : Type*}

/-- The items before the first error. -/
def delivered : List (Except ε α) → List α
  | .ok a :: rest => a :: delivered rest
  | .error _ :: _ | [] => []

@[simp] theorem delivered_nil : delivered ([] : List (Except ε α)) = [] := rfl

@[simp] theorem delivered_ok (a : α) (rest : List (Except ε α)) :
    delivered (.ok a :: rest) = a :: delivered rest := rfl

@[simp] theorem delivered_error (e : ε) (rest : List (Except ε α)) :
    delivered (.error e :: rest) = [] := rfl

end streams
