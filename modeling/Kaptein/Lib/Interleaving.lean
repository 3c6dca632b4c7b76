-- Several runs that take their events in turns: each run keeps the order of its own
-- events, and nothing is said of which run comes next.
import Mathlib.Data.List.Perm.Basic

namespace interleaving

variable {α : Type}

/-- The events of all the runs, in one of the orders in which they can come. -/
inductive Interleaving : List (List α) → List α → Prop
  | done {runs : List (List α)} (h : ∀ run ∈ runs, run = []) : Interleaving runs []
  | step {before after : List (List α)} {e : α} {run events : List α} :
    Interleaving (before ++ run :: after) events →
    Interleaving (before ++ (e :: run) :: after) (e :: events)

/-- No event is lost, and none comes twice. -/
theorem Interleaving.perm {runs : List (List α)} {events : List α} (h : Interleaving runs events) :
    events.Perm runs.flatten := by
  induction h with
  | done h =>
    rw [List.flatten_eq_nil_iff.mpr h]
  | step _ ih =>
    rw [List.flatten_append, List.flatten_cons] at ih ⊢
    exact (ih.cons _).trans List.perm_middle.symm

theorem Interleaving.mem {runs : List (List α)} {events : List α} (h : Interleaving runs events)
    {e : α} (he : e ∈ events) : ∃ run ∈ runs, e ∈ run :=
  List.mem_flatten.mp (h.perm.mem_iff.mp he)

end interleaving
