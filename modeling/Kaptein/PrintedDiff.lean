-- The text of a diff (`render_unified` in `diff.rs`), as `kaptein edit` prints it: it is
-- read back as the diff, and it is a patch of the old lines where its hunks are apart.
import Kaptein.DiffScript
import Kaptein.Hunks

open rust_str windows

namespace kaptein_viewmodel.diff

/-! ## The text -/

def render_line (line : DiffLine) : String :=
  String.ofList [line.tag, ' '] ++ line.text ++ "\n"

def render_hunk (hunk : Nat × List DiffLine) : String :=
  "@@ hunk " ++ toString hunk.1 ++ " @@\n" ++ String.join (hunk.2.map render_line)

/-- The hunks are numbered from 1 on. -/
def render_unified (diff : UnifiedDiff) (old_label new_label : String) : String :=
  "--- " ++ old_label ++ "\n+++ " ++ new_label ++ "\n" ++
    String.join ((diff.hunks.zipIdx 1).map fun hunk => render_hunk (hunk.2, hunk.1))

example : render_unified (unified_diff "a\nb" "a\nc" 0) "live" "edited" =
    "--- live\n+++ edited\n@@ hunk 1 @@\n- b\n+ c\n" := by decide +kernel

/-! ## A reader of the text -/

def read_line (line : String) : Option DiffLine :=
  match line.toList with
  | tag :: ' ' :: text => some { tag, text := String.ofList text }
  | _ => none

/-- The lines in front of the first header, and the hunks behind it. -/
def read_hunks : List String → Option (List DiffLine × List (List DiffLine))
  | [] => some ([], [])
  | line :: rest => do
    let (front, hunks) ← read_hunks rest
    if line.toList.head? = some '@' then return ([], front :: hunks)
    else return ((← read_line line) :: front, hunks)

/-- The labels and the hunks. The last line is ended too, so nothing is behind it. -/
def read_unified (text : String) : Option (String × String × List (List DiffLine)) :=
  match split '\n' text with
  | old :: new :: body =>
    if starts_with old "--- " ∧ starts_with new "+++ " ∧ body.getLast? = some "" then
      (read_hunks body.dropLast).map fun r =>
        (String.ofList (old.toList.drop 4), String.ofList (new.toList.drop 4), r.2)
    else none
  | _ => none

/-! ## What is printed is read -/

theorem split_cons {t : String} (h : '\n' ∉ t.toList) (rest : String) :
    split '\n' (t ++ "\n" ++ rest) = t :: split '\n' rest := by
  have htext : (t ++ "\n" ++ rest).toList = t.toList ++ '\n' :: rest.toList := by simp
  rw [split, htext, pieces_append h, List.map_cons, String.ofList_toList]
  rfl

/-- Ended lines are split into the lines, and nothing behind the last one. -/
theorem split_ended (ts : List String) (h : ∀ t ∈ ts, '\n' ∉ t.toList) :
    split '\n' (String.join (ts.map (· ++ "\n"))) = ts ++ [""] := by
  induction ts with
  | nil => rfl
  | cons t ts ih =>
    rw [List.forall_mem_cons] at h
    rw [List.map_cons, String.join_cons, split_cons h.1, ih h.2]
    rfl

/-- A line of a hunk without its end. -/
def shown (line : DiffLine) : String := String.ofList [line.tag, ' '] ++ line.text

def header (n : Nat) : String := "@@ hunk " ++ toString n ++ " @@"

def hunk_lines (hunk : List DiffLine × Nat) : List String := header hunk.2 :: hunk.1.map shown

theorem render_hunk_eq (hunk : List DiffLine × Nat) :
    render_hunk (hunk.2, hunk.1) = String.join ((hunk_lines hunk).map (· ++ "\n")) := by
  rw [render_hunk, hunk_lines, List.map_cons, String.join_cons, List.map_map, header]
  have hend : " @@\n" = " @@" ++ "\n" := rfl
  rw [hend, ← String.append_assoc]
  rfl

theorem join_flatMap {α : Type} (xs : List α) (f : α → List String) :
    String.join (xs.flatMap f) = String.join (xs.map fun x => String.join (f x)) := by
  induction xs with
  | nil => rfl
  | cons x xs ih => rw [List.flatMap_cons, List.map_cons, String.join_cons, String.join_append, ih]

theorem render_unified_eq (diff : UnifiedDiff) (old_label new_label : String) :
    render_unified diff old_label new_label =
      String.join ((("--- " ++ old_label) :: ("+++ " ++ new_label) ::
        (diff.hunks.zipIdx 1).flatMap hunk_lines).map (· ++ "\n")) := by
  have hlabel : "\n+++ " = "\n" ++ "+++ " := rfl
  rw [List.map_cons, List.map_cons, String.join_cons, String.join_cons, List.map_flatMap,
    join_flatMap, render_unified, hlabel]
  simp only [render_hunk_eq, String.append_assoc]

theorem read_line_shown (line : DiffLine) : read_line (shown line) = some line := by
  rw [read_line, shown, String.toList_append, String.toList_ofList]
  simp

theorem read_hunks_shown {line : DiffLine} (h : line.tag ≠ '@') (rest : List String) :
    read_hunks (shown line :: rest) =
      (read_hunks rest).map fun r => (line :: r.1, r.2) := by
  have hhead : (shown line).toList.head? ≠ some '@' := by
    simp [shown, h]
  rw [read_hunks]
  simp only [if_neg hhead, read_line_shown]
  cases read_hunks rest <;> rfl

theorem read_hunks_header (n : Nat) (rest : List String) :
    read_hunks (header n :: rest) = (read_hunks rest).map fun r => ([], r.1 :: r.2) := by
  have hhead : (header n).toList.head? = some '@' := by simp [header]
  rw [read_hunks]
  simp only [hhead, if_true]
  cases read_hunks rest <;> rfl

theorem read_hunks_body {hunk : List DiffLine} (h : ∀ line ∈ hunk, line.tag ≠ '@')
    (rest : List String) : read_hunks (hunk.map shown ++ rest) =
      (read_hunks rest).map fun r => (hunk ++ r.1, r.2) := by
  induction hunk with
  | nil => cases hrest : read_hunks rest <;> simp [hrest]
  | cons line hunk ih =>
    rw [List.forall_mem_cons] at h
    rw [List.map_cons, List.cons_append, read_hunks_shown h.1, ih h.2, Option.map_map]
    rfl

theorem read_hunks_all {hunks : List (List DiffLine)} (n : Nat)
    (h : ∀ line ∈ hunks.flatten, line.tag ≠ '@') :
    read_hunks ((hunks.zipIdx n).flatMap hunk_lines) = some ([], hunks) := by
  induction hunks generalizing n with
  | nil => rfl
  | cons hunk hunks ih =>
    rw [List.flatten_cons] at h
    rw [List.zipIdx_cons, List.flatMap_cons, hunk_lines, List.cons_append, read_hunks_header,
      read_hunks_body fun line hline => h line (List.mem_append_left _ hline),
      ih _ fun line hline => h line (List.mem_append_right _ hline)]
    simp

theorem no_newline_in_header (n : Nat) : '\n' ∉ (header n).toList := by
  have hdigits : '\n' ∉ Nat.toDigits 10 n := by
    intro h
    have hdigit := Nat.isDigit_of_mem_toDigits (by decide) (by decide) h
    revert hdigit
    decide
  rw [header, String.toList_append, String.toList_append]
  simp [hdigits]

/-- A diff whose tags and texts can be told from the frame around them. -/
def Printable (hunks : List (List DiffLine)) : Prop :=
  ∀ line ∈ hunks.flatten, line.tag ≠ '@' ∧ line.tag ≠ '\n' ∧ '\n' ∉ line.text.toList

theorem read_render {diff : UnifiedDiff} (h : Printable diff.hunks) {old_label new_label : String}
    (hold : '\n' ∉ old_label.toList) (hnew : '\n' ∉ new_label.toList) :
    read_unified (render_unified diff old_label new_label) =
      some (old_label, new_label, diff.hunks) := by
  have hlines : ∀ t ∈ ("--- " ++ old_label) :: ("+++ " ++ new_label) ::
      (diff.hunks.zipIdx 1).flatMap hunk_lines, '\n' ∉ t.toList := by
    rw [List.forall_mem_cons, List.forall_mem_cons]
    refine ⟨by simp [hold], by simp [hnew], ?_⟩
    intro t ht
    obtain ⟨hunk, hmem, ht⟩ := List.mem_flatMap.mp ht
    rw [hunk_lines, List.mem_cons] at ht
    rcases ht with rfl | ht
    · exact no_newline_in_header _
    · obtain ⟨line, hline, rfl⟩ := List.mem_map.mp ht
      have hin : hunk.1 ∈ diff.hunks := List.fst_mem_of_mem_zipIdx hmem
      obtain ⟨-, htag, htext⟩ := h line (List.mem_flatten.mpr ⟨_, hin, hline⟩)
      simp [shown, htext, Ne.symm htag]
  have hread : read_hunks ((diff.hunks.zipIdx 1).flatMap hunk_lines) = some ([], diff.hunks) :=
    read_hunks_all 1 fun line hline => (h line hline).1
  rw [read_unified, render_unified_eq, split_ended _ hlines]
  simp only [List.cons_append, List.dropLast_concat, hread]
  have hstart : starts_with ("--- " ++ old_label) "--- " = true ∧
      starts_with ("+++ " ++ new_label) "+++ " = true := by
    simp [starts_with]
  simp [hstart]

/-! ## The printed diff is a patch -/

/-- The hunks, in order and with other lines between them, turn the old lines into the new
ones. -/
inductive Patches : List (List DiffLine) → List String → List String → Prop
  | done (gap : List String) : Patches [] gap gap
  | hunk {hunks : List (List DiffLine)} {old new : List String} (gap : List String)
    (hunk : List DiffLine) (h : Patches hunks old new) :
    Patches (hunk :: hunks) (gap ++ (texts [' ', '-'] hunk ++ old))
      (gap ++ (texts [' ', '+'] hunk ++ new))

/-- The tags of the tagged lines. -/
def Tags (tagged : List DiffLine) : Prop := ∀ l ∈ tagged, l.tag ∈ [' ', '-', '+']

theorem texts_append (tags : List Char) (a b : List DiffLine) :
    texts tags (a ++ b) = texts tags a ++ texts tags b := by
  rw [texts, texts, texts, List.filter_append, List.map_append]

/-- Lines that are not changed are on both sides. -/
theorem texts_unchanged {l : List DiffLine} (htags : Tags l)
    (h : ∀ a ∈ l, is_changed a = false) : texts [' ', '-'] l = texts [' ', '+'] l := by
  unfold texts
  congr 1
  refine List.filter_congr fun a ha => ?_
  have htag := htags a ha
  have hsame := h a ha
  simp only [is_changed, Bool.or_eq_false_iff, decide_eq_false_iff_not] at hsame
  simp only [List.mem_cons, List.not_mem_nil, or_false] at htag
  simp [htag.resolve_right (by tauto)]

theorem patches_of_covered {tagged : List DiffLine} {hunks : List (List DiffLine)}
    (htags : Tags tagged) (h : Covered is_changed tagged hunks) :
    Patches hunks (texts [' ', '-'] tagged) (texts [' ', '+'] tagged) := by
  induction h with
  | done h =>
    rw [texts_unchanged htags h]
    exact .done _
  | @part skipped part rest parts h _ ih =>
    rw [texts_append, texts_append, texts_append, texts_append]
    have hskipped := texts_unchanged (fun l hl => htags l (by simp [hl])) h
    rw [hskipped]
    exact .hunk _ _ (ih fun l hl => htags l (by simp [hl]))

/-! ## The diff of two texts -/

/-- A line of the two sides, with one of the three tags. -/
def Proper (line : DiffLine) : Prop := line.tag ∈ [' ', '-', '+'] ∧ '\n' ∉ line.text.toList

theorem no_newline_in_getD (text : String) (i : Nat) :
    '\n' ∉ ((lines text).getD i "").toList := by
  rw [List.getD_eq_getElem?_getD]
  cases hline : (lines text)[i]? with
  | none => simp
  | some line => exact no_newline_of_mem_lines (List.mem_of_getElem? hline)

theorem tag_ops_proper (old new : String) (ops : List Op) (t : Tagging)
    (h : ∀ line ∈ t.tagged, Proper line) :
    ∀ line ∈ (tag_ops (lines old) (lines new) ops t).tagged, Proper line := by
  induction ops generalizing t with
  | nil => exact h
  | cons op ops ih =>
    apply ih (tag_op (lines old) (lines new) t op)
    have hstep : ∃ line, Proper line ∧
        (tag_op (lines old) (lines new) t op).tagged = t.tagged ++ [line] := by
      cases op with
      | Keep => exact ⟨⟨' ', _⟩, ⟨by simp, no_newline_in_getD old t.oi⟩, rfl⟩
      | Remove => exact ⟨⟨'-', _⟩, ⟨by simp, no_newline_in_getD old t.oi⟩, rfl⟩
      | Add => exact ⟨⟨'+', _⟩, ⟨by simp, no_newline_in_getD new t.ni⟩, rfl⟩
    obtain ⟨line, hline, hstep⟩ := hstep
    rw [hstep]
    intro l hl
    rcases List.mem_append.mp hl with hl | hl
    · exact h l hl
    · rw [List.mem_singleton.mp hl]
      exact hline

theorem tagging_proper (old new : String) :
    ∀ line ∈ (tagging (lines old) (lines new)).tagged, Proper line :=
  tag_ops_proper old new _ _ nofun

theorem mem_group_hunks_loop {tagged : List DiffLine} {context : Nat} {line : DiffLine}
    (fuel i : Nat) (h : line ∈ (group_hunks_loop tagged context fuel i).flatten) :
    line ∈ tagged := by
  induction fuel generalizing i with
  | zero => simp [group_hunks_loop] at h
  | succ fuel ih =>
    rcases Nat.lt_or_ge i tagged.length with hi | hi
    · cases hmark : is_changed tagged[i] with
      | false =>
        rw [group_hunks_loop_unchanged fuel hi hmark] at h
        exact ih _ h
      | true =>
        rw [group_hunks_loop_changed fuel hi hmark, List.flatten_cons, List.mem_append] at h
        rcases h with h | h
        · obtain ⟨j, -, -, hj⟩ := mem_slice h
          exact List.mem_of_getElem? hj
        · exact ih _ h
    · rw [group_hunks_loop_end _ hi] at h
      cases h

theorem group_hunks_loop_same {tagged : List DiffLine} {context : Nat}
    (h : ∀ line ∈ tagged, is_changed line = false) (fuel i : Nat) :
    group_hunks_loop tagged context fuel i = [] := by
  induction fuel generalizing i with
  | zero => rfl
  | succ fuel ih =>
    rcases Nat.lt_or_ge i tagged.length with hi | hi
    · rw [group_hunks_loop_unchanged fuel hi (h _ (List.getElem_mem hi))]
      exact ih _
    · exact group_hunks_loop_end _ hi

theorem hunks_eq_nil_iff (tagged : List DiffLine) (context : Nat) :
    group_hunks tagged context = [] ↔ ∀ line ∈ tagged, is_changed line = false := by
  constructor
  · intro h
    have hcount := @countP_group_hunks_loop tagged context 0 tagged.length (by omega)
    rw [group_hunks] at h
    rw [h, List.drop_zero, List.flatten_nil, List.countP_nil, Nat.le_zero,
      List.countP_eq_zero] at hcount
    exact fun line hline => by simpa using hcount line hline
  · exact fun h => group_hunks_loop_same h _ _

/-- The edit is empty exactly where both texts have the same lines. -/
theorem unchanged_iff (old_lines new_lines : List String)
    (htags : Tags (tagging old_lines new_lines).tagged) :
    (∀ line ∈ (tagging old_lines new_lines).tagged, is_changed line = false) ↔
      old_lines = new_lines := by
  have hmin := @tagging_minimal old_lines new_lines
  constructor
  · intro h
    exact hmin.old_side.symm.trans ((texts_unchanged htags h).trans hmin.new_side)
  · rintro rfl
    obtain ⟨hplus, hminus⟩ := tagging_counts old_lines old_lines
    have hall : old_lines.length ≤ (texts [' '] (tagging old_lines old_lines).tagged).length :=
      hmin.common.longest old_lines (List.Sublist.refl _) (List.Sublist.refl _)
    have hadded := hmin.added_eq
    have hremoved := hmin.removed_eq
    rw [hplus, Nat.sub_eq_zero_of_le hall, List.countP_eq_zero] at hadded
    rw [hminus, Nat.sub_eq_zero_of_le hall, List.countP_eq_zero] at hremoved
    intro line hline
    have hplus := hadded line hline
    have hminus := hremoved line hline
    simp only [decide_eq_true_eq] at hplus hminus
    simp [is_changed, hplus, hminus]

/-- The diff that is printed of an edit. Its text is read back as its labels and its hunks;
it has no hunk exactly where both texts have the same lines; and where two runs of changes have
twice the context between them, the hunks that are read are a patch from the old lines to the
new ones. -/
theorem the_printed_diff_is_a_patch (old new : String) (context : Nat)
    {old_label new_label : String} (hold : '\n' ∉ old_label.toList)
    (hnew : '\n' ∉ new_label.toList) :
    ∃ hunks,
      read_unified (render_unified (unified_diff old new context) old_label new_label) =
        some (old_label, new_label, hunks) ∧
      (hunks = [] ↔ lines old = lines new) ∧
      (Spaced is_changed (tagging (lines old) (lines new)).tagged (2 * context) →
        Patches hunks (lines old) (lines new)) := by
  have hproper := tagging_proper old new
  refine ⟨_, read_render ?_ hold hnew, ?_, ?_⟩
  · intro line hline
    obtain ⟨htag, htext⟩ := hproper line (mem_group_hunks_loop _ _ hline)
    refine ⟨?_, ?_, htext⟩
    · rintro heq
      rw [heq] at htag
      revert htag
      decide
    · rintro heq
      rw [heq] at htag
      revert htag
      decide
  · refine (hunks_eq_nil_iff _ _).trans (unchanged_iff _ _ ?_)
    exact fun line hline => (hproper line hline).1
  · intro hspaced
    have hmin := @tagging_minimal (lines old) (lines new)
    have hpatch := patches_of_covered (fun line hline => (hproper line hline).1)
      (covered_group_hunks.mpr hspaced)
    rwa [hmin.old_side, hmin.new_side] at hpatch

/-- The first and the last line are replaced, and each of them comes to a hunk of its own. -/
theorem a_printed_edit_is_a_patch :
    ∃ hunks,
      read_unified (render_unified (unified_diff "a\nb\nc\nd" "x\nb\nc\ny" 1) "live" "edited") =
        some ("live", "edited", hunks) ∧
      Patches hunks (lines "a\nb\nc\nd") (lines "x\nb\nc\ny") := by
  have htagged : (tagging (lines "a\nb\nc\nd") (lines "x\nb\nc\ny")).tagged =
      [⟨'-', "a"⟩, ⟨'+', "x"⟩, ⟨' ', "b"⟩, ⟨' ', "c"⟩, ⟨'-', "d"⟩, ⟨'+', "y"⟩] := by decide
  have hmarked : ∀ j, Marked is_changed
      [⟨'-', "a"⟩, ⟨'+', "x"⟩, ⟨' ', "b"⟩, ⟨' ', "c"⟩, ⟨'-', "d"⟩, ⟨'+', "y"⟩] j ↔
        j = 0 ∨ j = 1 ∨ j = 4 ∨ j = 5 := by
    intro j
    constructor
    · rintro ⟨hlt, hmark⟩
      rcases j with _ | _ | _ | _ | _ | _ | j
      · exact .inl rfl
      · exact .inr (.inl rfl)
      · cases hmark
      · cases hmark
      · exact .inr (.inr (.inl rfl))
      · exact .inr (.inr (.inr rfl))
      · simp at hlt
        omega
    · rintro (rfl | rfl | rfl | rfl) <;> exact ⟨by decide, rfl⟩
  obtain ⟨hunks, hread, -, hpatch⟩ :=
    the_printed_diff_is_a_patch "a\nb\nc\nd" "x\nb\nc\ny" 1 (by decide : '\n' ∉ "live".toList)
      (by decide : '\n' ∉ "edited".toList)
  refine ⟨hunks, hread, hpatch ?_⟩
  intro a b ha hb hlt hbetween
  rw [htagged] at ha hb hbetween
  -- Between two changes of different runs stand the lines 2 and 3.
  have hone := hbetween 1
  have hfour := hbetween 4
  rw [hmarked] at ha hb hone hfour
  omega

end kaptein_viewmodel.diff
