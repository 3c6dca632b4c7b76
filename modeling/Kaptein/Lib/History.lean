-- A history with two stacks: what was here before, and what was left again. A turn
-- takes an element from the one stack and puts the one that is here onto the other.
import Kaptein.Lib.Runs

open runs

namespace histories

variable {α : Type*}

/-- The last element of a stack is on its top. -/
structure History (α : Type*) where
  back : List α
  here : α
  forward : List α

inductive Turn where
  | Back
  | Forward
  deriving DecidableEq

def Turn.flip : Turn → Turn
  | .Back => .Forward
  | .Forward => .Back

/-- No turn is taken to an empty stack. -/
def History.turn (h : History α) : Turn → Option (History α)
  | .Back => h.back.getLast?.map fun prev =>
    { back := h.back.dropLast, here := prev, forward := h.forward ++ [h.here] }
  | .Forward => h.forward.getLast?.map fun next =>
    { back := h.back ++ [h.here], here := next, forward := h.forward.dropLast }

theorem dropLast_append_getLast {xs : List α} {x : α} (h : xs.getLast? = some x) :
    xs.dropLast ++ [x] = xs := by
  rw [List.getLast?_eq_some_iff] at h
  obtain ⟨ys, rfl⟩ := h
  rw [List.dropLast_concat]

/-- A turn is undone by the opposite turn. -/
theorem turn_flip (h : History α) (t : Turn) (h' : History α) (ht : h.turn t = some h') :
    h'.turn t.flip = some h := by
  cases t with
  | Back =>
    obtain ⟨prev, hprev, rfl⟩ := Option.map_eq_some_iff.mp ht
    simp [History.turn, Turn.flip, dropLast_append_getLast hprev]
  | Forward =>
    obtain ⟨next, hnext, rfl⟩ := Option.map_eq_some_iff.mp ht
    simp [History.turn, Turn.flip, dropLast_append_getLast hnext]

theorem turns_back (h : History α) {k : Nat} (hk : k ≤ h.back.length) :
    ∃ h', exec History.turn h (List.replicate k .Back) = some h' := by
  induction k generalizing h with
  | zero => exact ⟨h, rfl⟩
  | succ k ih =>
    have hne : h.back ≠ [] := List.ne_nil_of_length_pos (by omega)
    let before : History α := ⟨h.back.dropLast, h.back.getLast hne, h.forward ++ [h.here]⟩
    have hturn : h.turn .Back = some before := by
      simp [before, History.turn, List.getLast?_eq_some_getLast hne]
    have hlength : k ≤ before.back.length := by
      rw [List.length_dropLast]
      omega
    obtain ⟨h', hh'⟩ := ih before hlength
    refine ⟨h', ?_⟩
    rw [List.replicate_succ, exec_cons, hturn]
    exact hh'

/-- As many turns forward as there were turns back end where they began. -/
theorem there_and_back (h : History α) {k : Nat} (hk : k ≤ h.back.length) :
    exec History.turn h (List.replicate k .Back ++ List.replicate k .Forward) = some h := by
  obtain ⟨h', hback⟩ := turns_back h hk
  have hforward := exec_undone turn_flip hback
  rw [List.reverse_replicate, List.map_replicate] at hforward
  rw [exec_append, hback]
  exact hforward

end histories
