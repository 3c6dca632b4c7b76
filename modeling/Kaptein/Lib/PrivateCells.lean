-- Programs that run at the same time over one store, each with a cell of its own. Whatever
-- the schedule, each of them does what it does alone.
import Mathlib.Logic.Function.Iterate

namespace private_cells

variable {ι κ σ υ α : Type}

/-- A program at work: what it knows, what its cell holds and what it has done. -/
structure Local (σ υ α : Type) where
  state : σ
  cell : υ
  acts : List α

/-- One step of a program: what it knows next, what it writes to its cell and what it does. -/
abbrev Program (σ υ α : Type) := σ → υ → σ × υ × List α

def Local.step (program : Program σ υ α) (p : Local σ υ α) : Local σ υ α :=
  let next := program p.state p.cell
  { state := next.1, cell := next.2.1, acts := p.acts ++ next.2.2 }

/-- All the programs and the store. -/
structure World (ι κ σ υ α : Type) where
  state : ι → σ
  cells : κ → υ
  acts : ι → List α

section

variable (program : ι → Program σ υ α) (key : ι → κ)

def World.view (w : World ι κ σ υ α) (i : ι) : Local σ υ α where
  state := w.state i
  cell := w.cells (key i)
  acts := w.acts i

variable [DecidableEq ι] [DecidableEq κ]

/-- One program makes its next step. -/
def World.step (w : World ι κ σ υ α) (i : ι) : World ι κ σ υ α :=
  let next := (w.view key i).step (program i)
  { state := Function.update w.state i next.state
    cells := Function.update w.cells (key i) next.cell
    acts := Function.update w.acts i next.acts }

/-- The programs make their steps in the order of the schedule. -/
def World.run (w : World ι κ σ υ α) (schedule : List ι) : World ι κ σ υ α :=
  schedule.foldl (World.step program key) w

variable {program key}

theorem view_step_self (w : World ι κ σ υ α) (i : ι) :
    (w.step program key i).view key i = (w.view key i).step (program i) := by
  simp only [World.view, World.step, Function.update_self]

theorem view_step_other (hkey : Function.Injective key) (w : World ι κ σ υ α) {i j : ι}
    (h : i ≠ j) : (w.step program key j).view key i = w.view key i := by
  have hcell : key i ≠ key j := hkey.ne h
  simp only [World.view, World.step, Function.update_of_ne h, Function.update_of_ne hcell]

/-- A program in the world is where it would be alone after as many steps. -/
theorem view_run (hkey : Function.Injective key) (schedule : List ι) (w : World ι κ σ υ α)
    (i : ι) :
    (w.run program key schedule).view key i =
      (Local.step (program i))^[schedule.count i] (w.view key i) := by
  induction schedule generalizing w with
  | nil => rfl
  | cons j schedule ih =>
    refine (ih (w.step program key j)).trans ?_
    by_cases h : i = j
    · subst h
      rw [view_step_self, List.count_cons_self, Function.iterate_succ_apply]
    · rw [view_step_other hkey w h, List.count_cons_of_ne (Ne.symm h)]

end

end private_cells
