-- The diff of an edit (`diff.rs`): a table of longest common subsequences over
-- the lines, the walk that reads an edit script from it, the tagged lines of
-- the script, and their hunks.
import Kaptein.Lib.Lcs
import Kaptein.Lib.Slices
import Kaptein.Lib.Text

open rust_str windows lcs

namespace kaptein_viewmodel.diff

structure DiffLine where
  tag : Char
  text : String
  deriving DecidableEq

structure UnifiedDiff where
  hunks : List (List DiffLine)
  added : Nat
  removed : Nat
  deriving DecidableEq

inductive Op where
  | Keep
  | Remove
  | Add
  deriving DecidableEq

/-! ## The edit script -/

section

variable (old_lines new_lines : List String)

/-- `dp` of the source: a row for each place in the old lines, a cell in it for
each place in the new ones. -/
abbrev Table := Vector (Vector Nat (new_lines.length + 1)) (old_lines.length + 1)

def fill_cell (i : Nat) (hi : i < old_lines.length) (j : Nat) (hj : j < new_lines.length)
    (dp : Table old_lines new_lines) : Table old_lines new_lines :=
  let value :=
    if old_lines[i] = new_lines[j] then dp[i + 1][j + 1] + 1 else max dp[i + 1][j] dp[i][j + 1]
  dp.set i (dp[i].set j value)

/-- `for j in (0..m).rev()`: the cells of the row from the last one down. -/
def fill_row (i : Nat) (hi : i < old_lines.length) :
    (j : Nat) → j ≤ new_lines.length → Table old_lines new_lines → Table old_lines new_lines
  | 0, _, dp => dp
  | j + 1, hj, dp =>
    fill_row i hi j (Nat.le_of_lt hj) (fill_cell old_lines new_lines i hi j hj dp)

/-- `for i in (0..n).rev()`. -/
def fill_rows :
    (i : Nat) → i ≤ old_lines.length → Table old_lines new_lines → Table old_lines new_lines
  | 0, _, dp => dp
  | i + 1, hi, dp =>
    fill_rows i (Nat.le_of_lt hi)
      (fill_row old_lines new_lines i hi new_lines.length (Nat.le_refl _) dp)

def lcs_table : Table old_lines new_lines :=
  fill_rows old_lines new_lines old_lines.length (Nat.le_refl _)
    (Vector.replicate _ (Vector.replicate _ 0))

/-- The walk through the table. Each turn passes a line of one side at least, so
the number of all lines is enough fuel. What is left of one side when the other
one ends is removed, or added. -/
def backtrack (dp : Table old_lines new_lines) : Nat → Nat → Nat → List Op
  | 0, _, _ => []
  | fuel + 1, i, j =>
    if h : i < old_lines.length ∧ j < new_lines.length then
      if old_lines[i] = new_lines[j] then .Keep :: backtrack dp fuel (i + 1) (j + 1)
      else if dp[i][j + 1] ≤ dp[i + 1][j] then .Remove :: backtrack dp fuel (i + 1) j
      else .Add :: backtrack dp fuel i (j + 1)
    else
      List.replicate (old_lines.length - i) .Remove ++ List.replicate (new_lines.length - j) .Add

def edit_ops : List Op :=
  backtrack old_lines new_lines (lcs_table old_lines new_lines)
    (old_lines.length + new_lines.length) 0 0

/-! ## The tagged lines -/

/-- The variables of the loop that tags the lines. -/
structure Tagging where
  tagged : List DiffLine
  oi : Nat
  ni : Nat
  added : Nat
  removed : Nat

def tag_op (t : Tagging) : Op → Tagging
  | .Keep =>
    { t with
      tagged := t.tagged ++ [{ tag := ' ', text := old_lines.getD t.oi "" }]
      oi := t.oi + 1
      ni := t.ni + 1 }
  | .Remove =>
    { t with
      tagged := t.tagged ++ [{ tag := '-', text := old_lines.getD t.oi "" }]
      removed := t.removed + 1
      oi := t.oi + 1 }
  | .Add =>
    { t with
      tagged := t.tagged ++ [{ tag := '+', text := new_lines.getD t.ni "" }]
      added := t.added + 1
      ni := t.ni + 1 }

def tag_ops (ops : List Op) (t : Tagging) : Tagging :=
  ops.foldl (tag_op old_lines new_lines) t

def tagging : Tagging :=
  tag_ops old_lines new_lines (edit_ops old_lines new_lines) ⟨[], 0, 0, 0, 0⟩

end

/-! ## The hunks -/

def is_changed (l : DiffLine) : Bool := l.tag = '+' || l.tag = '-'

/-- `end` of the source: the place behind the run of changes at `i`. -/
def run_end (tagged : List DiffLine) (i : Nat) : Nat :=
  i + ((tagged.drop i).takeWhile is_changed).length

/-- `trailing` of the source: the place behind the unchanged lines from `end_` on,
`context` of them at most. -/
def trailing_end (tagged : List DiffLine) (context end_ : Nat) : Nat :=
  end_ + (((tagged.drop end_).take context).takeWhile fun l => !is_changed l).length

/-- The loop of `group_hunks` from `i` on. A turn passes a line at least. -/
def group_hunks_loop (tagged : List DiffLine) (context : Nat) : Nat → Nat → List (List DiffLine)
  | 0, _ => []
  | fuel + 1, i =>
    if h : i < tagged.length then
      if is_changed tagged[i] then
        let start := i - context
        let end_ := run_end tagged i
        let trailing := trailing_end tagged context end_
        let hunk := slice tagged start trailing
        let rest := group_hunks_loop tagged context fuel (max (max trailing end_) (i + 1))
        if hunk = [] then rest else hunk :: rest
      else group_hunks_loop tagged context fuel (i + 1)
    else []

def group_hunks (tagged : List DiffLine) (context : Nat) : List (List DiffLine) :=
  group_hunks_loop tagged context tagged.length 0

def unified_diff (old new : String) (context : Nat) : UnifiedDiff :=
  let t := tagging (lines old) (lines new)
  { hunks := group_hunks t.tagged context, added := t.added, removed := t.removed }

example : unified_diff "a\nb\nc" "a\nd\nc" 1 =
    { hunks := [[⟨' ', "a"⟩, ⟨'-', "b"⟩, ⟨'+', "d"⟩, ⟨' ', "c"⟩]], added := 1, removed := 1 } := by
  decide

end kaptein_viewmodel.diff
