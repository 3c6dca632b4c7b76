-- The edit script of a diff is minimal. Each cell of the table holds the
-- length of a longest common subsequence of what is left of both sides, and
-- the walk keeps that many lines.
import Kaptein.Diff

open rust_str lcs

namespace kaptein_viewmodel.diff

section

variable (old_lines new_lines : List String)

/-! ## The table -/

/-- The table below `i`, and in its row from `j` on, is filled. Every other cell is 0. -/
def Filled (i j : Nat) (dp : Table old_lines new_lines) : Prop :=
  ∀ (i' : Nat) (hi' : i' < old_lines.length + 1) (j' : Nat) (hj' : j' < new_lines.length + 1),
    dp[i'][j'] = if i < i' ∨ i' = i ∧ j ≤ j'
      then lcs_length (old_lines.drop i') (new_lines.drop j') else 0

variable {old_lines new_lines}

theorem lcs_length_drop {i : Nat} (hi : i < old_lines.length) {j : Nat}
    (hj : j < new_lines.length) :
    lcs_length (old_lines.drop i) (new_lines.drop j) =
      if old_lines[i] = new_lines[j]
        then lcs_length (old_lines.drop (i + 1)) (new_lines.drop (j + 1)) + 1
        else max (lcs_length (old_lines.drop (i + 1)) (new_lines.drop j))
          (lcs_length (old_lines.drop i) (new_lines.drop (j + 1))) := by
  rw [List.drop_eq_getElem_cons hi, List.drop_eq_getElem_cons hj]
  split
  · rename_i heq
    rw [heq, lcs_length_cons_self]
  · rename_i hne
    rw [lcs_length_cons_ne hne]

theorem fill_cell_ne {i j : Nat} (hi : i < old_lines.length) (hj : j < new_lines.length)
    (dp : Table old_lines new_lines) {i' : Nat} (hi' : i' < old_lines.length + 1) {j' : Nat}
    (hj' : j' < new_lines.length + 1) (h : ¬(i = i' ∧ j = j')) :
    (fill_cell old_lines new_lines i hi j hj dp)[i'][j'] = dp[i'][j'] := by
  unfold fill_cell
  by_cases hrow : i = i'
  · subst hrow
    have hcol : j ≠ j' := fun hcol => h ⟨rfl, hcol⟩
    simp [hcol]
  · simp [hrow]

theorem fill_cell_filled {i j : Nat} {dp : Table old_lines new_lines} (hi : i < old_lines.length)
    (hj : j < new_lines.length) (h : Filled old_lines new_lines i (j + 1) dp) :
    Filled old_lines new_lines i j (fill_cell old_lines new_lines i hi j hj dp) := by
  intro i' hi' j' hj'
  by_cases hcell : i = i' ∧ j = j'
  · obtain ⟨rfl, rfl⟩ := hcell
    unfold fill_cell
    rw [Vector.getElem_set_self, Vector.getElem_set_self, h (i + 1) (by omega) (j + 1) (by omega),
      h (i + 1) (by omega) j (by omega), h i (by omega) (j + 1) (by omega), lcs_length_drop hi hj]
    simp
  · rw [fill_cell_ne hi hj dp hi' hj' hcell, h i' hi' j' hj']
    have hle : (i < i' ∨ i' = i ∧ j + 1 ≤ j') ↔ (i < i' ∨ i' = i ∧ j ≤ j') := by omega
    simp only [hle]

theorem fill_row_filled {i : Nat} (hi : i < old_lines.length) {j : Nat} (hj : j ≤ new_lines.length)
    {dp : Table old_lines new_lines} (h : Filled old_lines new_lines i j dp) :
    Filled old_lines new_lines i 0 (fill_row old_lines new_lines i hi j hj dp) := by
  induction j generalizing dp with
  | zero => exact h
  | succ j ih => exact ih (Nat.le_of_lt hj) (fill_cell_filled hi hj h)

/-- A row starts with its last cell right: nothing is left of the new lines there. -/
theorem filled_next_row {i : Nat} {dp : Table old_lines new_lines}
    (h : Filled old_lines new_lines (i + 1) 0 dp) :
    Filled old_lines new_lines i new_lines.length dp := by
  intro i' hi' j' hj'
  rw [h i' hi' j' hj']
  by_cases hrow : i < i'
  · rw [if_pos (by omega), if_pos (by omega)]
  · rw [if_neg (by omega)]
    split
    · rw [List.drop_eq_nil_of_le (by omega : new_lines.length ≤ j'), lcs_length_nil_right]
    · rfl

theorem fill_rows_filled {i : Nat} (hi : i ≤ old_lines.length) {dp : Table old_lines new_lines}
    (h : Filled old_lines new_lines i 0 dp) :
    Filled old_lines new_lines 0 0 (fill_rows old_lines new_lines i hi dp) := by
  induction i generalizing dp with
  | zero => exact h
  | succ i ih =>
    exact ih (Nat.le_of_lt hi) (fill_row_filled hi (Nat.le_refl _) (filled_next_row h))

theorem zeros_filled : Filled old_lines new_lines old_lines.length 0
    (Vector.replicate _ (Vector.replicate _ 0)) := by
  intro i' hi' j' hj'
  rw [Vector.getElem_replicate, Vector.getElem_replicate]
  split
  · rw [List.drop_eq_nil_of_le (by omega : old_lines.length ≤ i'), lcs_length_nil_left]
  · rfl

theorem lcs_table_eq {i : Nat} (hi : i < old_lines.length + 1) {j : Nat}
    (hj : j < new_lines.length + 1) :
    (lcs_table old_lines new_lines)[i][j] =
      lcs_length (old_lines.drop i) (new_lines.drop j) := by
  have hfull := fill_rows_filled (Nat.le_refl _) zeros_filled i hi j hj
  rw [if_pos (by omega)] at hfull
  exact hfull

/-! ## The script -/

/-- The script turns the one list of lines into the other. -/
inductive Script : List Op → List String → List String → Prop
  | done : Script [] [] []
  | keep {ops : List Op} {old new : List String} (line : String) (h : Script ops old new) :
    Script (.Keep :: ops) (line :: old) (line :: new)
  | remove {ops : List Op} {old new : List String} (line : String) (h : Script ops old new) :
    Script (.Remove :: ops) (line :: old) new
  | add {ops : List Op} {old new : List String} (line : String) (h : Script ops old new) :
    Script (.Add :: ops) old (line :: new)

theorem script_leftover (old new : List String) :
    Script (List.replicate old.length .Remove ++ List.replicate new.length .Add) old new := by
  induction old with
  | nil =>
    induction new with
    | nil => exact .done
    | cons line new ih => exact .add line ih
  | cons line old ih => exact .remove line ih

theorem count_leftover (m n : Nat) :
    (List.replicate m Op.Remove ++ List.replicate n Op.Add).count .Keep = 0 := by
  rw [List.count_append, List.count_replicate, List.count_replicate]
  rfl

/-- The walk from any place gives a script for what is left, and keeps the most lines. -/
theorem backtrack_script (fuel i j : Nat)
    (hfuel : old_lines.length - i + (new_lines.length - j) ≤ fuel) :
    Script (backtrack old_lines new_lines (lcs_table old_lines new_lines) fuel i j)
        (old_lines.drop i) (new_lines.drop j) ∧
      (backtrack old_lines new_lines (lcs_table old_lines new_lines) fuel i j).count .Keep =
        lcs_length (old_lines.drop i) (new_lines.drop j) := by
  induction fuel generalizing i j with
  | zero =>
    rw [List.drop_eq_nil_of_le (by omega), List.drop_eq_nil_of_le (by omega)]
    exact ⟨.done, by simp [backtrack]⟩
  | succ fuel ih =>
    unfold backtrack
    by_cases h : i < old_lines.length ∧ j < new_lines.length
    · obtain ⟨hi, hj⟩ := h
      rw [dif_pos ⟨hi, hj⟩, lcs_length_drop hi hj, lcs_table_eq, lcs_table_eq]
      split
      · rename_i heq
        obtain ⟨hscript, hcount⟩ := ih (i + 1) (j + 1) (by omega)
        rw [List.drop_eq_getElem_cons hi, List.drop_eq_getElem_cons hj, heq]
        exact ⟨.keep _ hscript, by simp [hcount]⟩
      · split
        · rename_i hle
          obtain ⟨hscript, hcount⟩ := ih (i + 1) j (by omega)
          rw [Nat.max_eq_left hle, ← hcount, List.drop_eq_getElem_cons hi]
          exact ⟨.remove _ hscript, by simp⟩
        · rename_i hlt
          obtain ⟨hscript, hcount⟩ := ih i (j + 1) (by omega)
          rw [Nat.max_eq_right (by omega), ← hcount, List.drop_eq_getElem_cons hj]
          exact ⟨.add _ hscript, by simp⟩
    · rw [dif_neg h, count_leftover, ← List.length_drop, ← List.length_drop]
      refine ⟨script_leftover _ _, ?_⟩
      rcases Nat.lt_or_ge i old_lines.length with hi | hi
      · rw [List.drop_eq_nil_of_le (by omega : new_lines.length ≤ j), lcs_length_nil_right]
      · rw [List.drop_eq_nil_of_le hi, lcs_length_nil_left]

theorem edit_ops_script : Script (edit_ops old_lines new_lines) old_lines new_lines := by
  have h := (@backtrack_script old_lines new_lines
    (old_lines.length + new_lines.length) 0 0 (by omega)).1
  simpa [edit_ops] using h

theorem count_keep_edit_ops :
    (edit_ops old_lines new_lines).count .Keep = lcs_length old_lines new_lines := by
  have h := (@backtrack_script old_lines new_lines
    (old_lines.length + new_lines.length) 0 0 (by omega)).2
  simpa [edit_ops] using h

/-! ## The tagged lines -/

/-- The texts of the lines with one of the tags. -/
def texts (tags : List Char) (tagged : List DiffLine) : List String :=
  (tagged.filter fun l => l.tag ∈ tags).map DiffLine.text

theorem texts_sublist {few many : List Char} (h : few ⊆ many) (tagged : List DiffLine) :
    (texts few tagged).Sublist (texts many tagged) := by
  unfold texts
  apply List.Sublist.map
  apply List.monotone_filter_right
  intro l hl
  simp only [decide_eq_true_eq] at hl ⊢
  exact h hl

/-- What the rest of the ops adds to the loop that tags the lines. -/
structure Tagged (ops : List Op) (old new : List String) (t t' : Tagging) : Prop where
  old_side : texts [' ', '-'] t'.tagged = texts [' ', '-'] t.tagged ++ old
  new_side : texts [' ', '+'] t'.tagged = texts [' ', '+'] t.tagged ++ new
  kept : (texts [' '] t'.tagged).length = (texts [' '] t.tagged).length + ops.count .Keep
  added : t'.added + ops.count .Keep = t.added + new.length
  removed : t'.removed + ops.count .Keep = t.removed + old.length

theorem head_of_drop {lines : List String} {i : Nat} {line : String} {rest : List String}
    (h : lines.drop i = line :: rest) : lines[i]?.getD "" = line ∧ lines.drop (i + 1) = rest := by
  constructor
  · rw [← List.head?_drop, h]
    rfl
  · rw [← List.tail_drop, h]
    rfl

theorem Tagged.trans {ops ops' : List Op} {a b old new : List String} {t u v : Tagging}
    (h : Tagged ops a b t u) (h' : Tagged ops' old new u v) :
    Tagged (ops ++ ops') (a ++ old) (b ++ new) t v where
  old_side := by rw [h'.old_side, h.old_side, List.append_assoc]
  new_side := by rw [h'.new_side, h.new_side, List.append_assoc]
  kept := by rw [h'.kept, h.kept, List.count_append, Nat.add_assoc]
  added := by
    have hadded := h.added
    have hadded' := h'.added
    rw [List.count_append, List.length_append]
    omega
  removed := by
    have hremoved := h.removed
    have hremoved' := h'.removed
    rw [List.count_append, List.length_append]
    omega

theorem tag_keep {line : String} (t : Tagging) (hline : old_lines[t.oi]?.getD "" = line) :
    Tagged [.Keep] [line] [line] t (tag_op old_lines new_lines t .Keep) := by
  subst hline
  constructor <;> simp [tag_op, texts]

theorem tag_remove {line : String} (t : Tagging) (hline : old_lines[t.oi]?.getD "" = line) :
    Tagged [.Remove] [line] [] t (tag_op old_lines new_lines t .Remove) := by
  subst hline
  constructor <;> simp [tag_op, texts]

theorem tag_add {line : String} (t : Tagging) (hline : new_lines[t.ni]?.getD "" = line) :
    Tagged [.Add] [] [line] t (tag_op old_lines new_lines t .Add) := by
  subst hline
  constructor <;> simp [tag_op, texts]

theorem tag_ops_tagged {ops : List Op} {old new : List String} (h : Script ops old new)
    (t : Tagging) (hold : old_lines.drop t.oi = old) (hnew : new_lines.drop t.ni = new) :
    Tagged ops old new t (tag_ops old_lines new_lines ops t) := by
  induction h generalizing t with
  | done => constructor <;> simp [tag_ops]
  | keep line _ ih =>
    obtain ⟨hline, hold⟩ := head_of_drop hold
    obtain ⟨-, hnew⟩ := head_of_drop hnew
    exact (tag_keep t hline).trans (ih (tag_op old_lines new_lines t .Keep) hold hnew)
  | remove line _ ih =>
    obtain ⟨hline, hold⟩ := head_of_drop hold
    exact (tag_remove t hline).trans (ih (tag_op old_lines new_lines t .Remove) hold hnew)
  | add line _ ih =>
    obtain ⟨hline, hnew⟩ := head_of_drop hnew
    exact (tag_add t hline).trans (ih (tag_op old_lines new_lines t .Add) hold hnew)

/-- A correct edit script of the two sides with the fewest changed lines. -/
structure Minimal (old new : List String) (tagged : List DiffLine)
    (added removed : Nat) : Prop where
  old_side : texts [' ', '-'] tagged = old
  new_side : texts [' ', '+'] tagged = new
  common : IsLcs (texts [' '] tagged) old new
  removed_eq : removed = old.length - (texts [' '] tagged).length
  added_eq : added = new.length - (texts [' '] tagged).length

theorem tagging_minimal : Minimal old_lines new_lines (tagging old_lines new_lines).tagged
    (tagging old_lines new_lines).added (tagging old_lines new_lines).removed := by
  have h : Tagged (edit_ops old_lines new_lines) old_lines new_lines ⟨[], 0, 0, 0, 0⟩
      (tagging old_lines new_lines) := tag_ops_tagged edit_ops_script _ rfl rfl
  have hold : texts [' ', '-'] (tagging old_lines new_lines).tagged = old_lines := h.old_side
  have hnew : texts [' ', '+'] (tagging old_lines new_lines).tagged = new_lines := h.new_side
  have hkept : (texts [' '] (tagging old_lines new_lines).tagged).length =
      lcs_length old_lines new_lines := by
    rw [← count_keep_edit_ops, h.kept]
    exact Nat.zero_add _
  have hremoved := h.removed
  have hadded := h.added
  rw [count_keep_edit_ops, ← hkept, Nat.zero_add] at hremoved hadded
  refine ⟨hold, hnew, ?_, by omega, by omega⟩
  apply isLcs_of_length _ _ hkept
  · have hsub := texts_sublist (by decide : [' '] ⊆ [' ', '-'])
      (tagging old_lines new_lines).tagged
    rwa [hold] at hsub
  · have hsub := texts_sublist (by decide : [' '] ⊆ [' ', '+'])
      (tagging old_lines new_lines).tagged
    rwa [hnew] at hsub

end

/-- The lines that `unified_diff` tags are a minimal edit script of the two texts. -/
theorem unified_diff_minimal (old new : String) (context : Nat) :
    Minimal (lines old) (lines new) (tagging (lines old) (lines new)).tagged
      (unified_diff old new context).added (unified_diff old new context).removed :=
  tagging_minimal

end kaptein_viewmodel.diff
