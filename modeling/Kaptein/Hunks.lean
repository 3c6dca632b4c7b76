-- The hunks of a diff. A hunk reaches `context` lines back from its changes
-- and never looks where the hunk before it ended, so hunks over close changes
-- overlap, and show a change twice.
import Kaptein.DiffScript

open rust_str windows

namespace kaptein_viewmodel.diff

section

variable {tagged : List DiffLine} {context i end_ : Nat}

/-! ## One turn of the loop -/

theorem run_end_spec (hi : i < tagged.length) (hmark : is_changed tagged[i] = true) :
    i < run_end tagged i ∧ run_end tagged i ≤ tagged.length ∧
      (∀ j, i ≤ j → j < run_end tagged i → Marked is_changed tagged j) ∧
      ¬Marked is_changed tagged (run_end tagged i) := by
  obtain ⟨hrun, hstop⟩ := takeWhile_run is_changed (tagged.drop i)
  have hle := (List.takeWhile_sublist is_changed (l := tagged.drop i)).length_le
  rw [List.length_drop] at hle
  rw [marked_drop] at hstop
  refine ⟨?_, ?_, ?_, hstop⟩
  · by_contra hno
    have hzero : ((tagged.drop i).takeWhile is_changed).length = 0 := by
      unfold run_end at hno
      omega
    rw [hzero] at hstop
    exact hstop ⟨hi, hmark⟩
  · unfold run_end
    omega
  · intro j hij hj
    have hmarked := hrun (j - i) (by unfold run_end at hj; omega)
    rw [marked_drop, Nat.add_sub_cancel' hij] at hmarked
    exact hmarked

theorem trailing_end_spec (context : Nat) (hend : end_ ≤ tagged.length) :
    end_ ≤ trailing_end tagged context end_ ∧ trailing_end tagged context end_ ≤ end_ + context ∧
      trailing_end tagged context end_ ≤ tagged.length ∧
      (∀ j, end_ ≤ j → j < trailing_end tagged context end_ → ¬Marked is_changed tagged j) ∧
      (trailing_end tagged context end_ < end_ + context →
        trailing_end tagged context end_ < tagged.length →
          Marked is_changed tagged (trailing_end tagged context end_)) := by
  obtain ⟨hrun, hstop⟩ :=
    takeWhile_run (fun l => !is_changed l) ((tagged.drop end_).take context)
  have hle := (List.takeWhile_sublist (fun l => !is_changed l)
    (l := (tagged.drop end_).take context)).length_le
  rw [List.length_take, List.length_drop] at hle
  rw [marked_take, marked_not, marked_drop, List.length_drop] at hstop
  unfold trailing_end
  refine ⟨by omega, by omega, by omega, ?_, ?_⟩
  · intro j hj hlt hmark
    have hfree := hrun (j - end_) (by omega)
    rw [marked_take, marked_not, marked_drop, Nat.add_sub_cancel' hj] at hfree
    exact hfree.2.2 hmark
  · intro hshort hinside
    by_contra hno
    exact hstop ⟨by omega, by omega, hno⟩

/-! ## The loop -/

theorem group_hunks_loop_end (fuel : Nat) (hi : tagged.length ≤ i) :
    group_hunks_loop tagged context fuel i = [] := by
  cases fuel with
  | zero => rfl
  | succ fuel =>
    unfold group_hunks_loop
    rw [dif_neg (by omega)]

theorem group_hunks_loop_unchanged (fuel : Nat) (hi : i < tagged.length)
    (hno : is_changed tagged[i] = false) :
    group_hunks_loop tagged context (fuel + 1) i =
      group_hunks_loop tagged context fuel (i + 1) := by
  rw [group_hunks_loop, dif_pos hi, if_neg (by simp [hno])]

/-- A change starts a hunk, and the loop goes on where the hunk ends. -/
theorem group_hunks_loop_changed (fuel : Nat) (hi : i < tagged.length)
    (hmark : is_changed tagged[i] = true) :
    group_hunks_loop tagged context (fuel + 1) i =
      slice tagged (i - context) (trailing_end tagged context (run_end tagged i)) ::
        group_hunks_loop tagged context fuel
          (trailing_end tagged context (run_end tagged i)) := by
  obtain ⟨hrun, hlen, -⟩ := run_end_spec hi hmark
  obtain ⟨hle, -, htrail, -⟩ := trailing_end_spec context hlen
  rw [group_hunks_loop, dif_pos hi, if_pos hmark]
  dsimp only
  generalize trailing_end tagged context (run_end tagged i) = trailing at *
  have hsome : slice tagged (i - context) trailing ≠ [] := by
    rw [← List.length_pos_iff_ne_nil, length_slice tagged htrail]
    omega
  rw [if_neg hsome, (by omega : max (max trailing (run_end tagged i)) (i + 1) = trailing)]

/-- No change is lost: the hunks show each one from `i` on. -/
theorem countP_group_hunks_loop (fuel : Nat) (hfuel : tagged.length - i ≤ fuel) :
    (tagged.drop i).countP is_changed ≤
      (group_hunks_loop tagged context fuel i).flatten.countP is_changed := by
  induction fuel generalizing i with
  | zero =>
    rw [List.drop_eq_nil_of_le (by omega)]
    simp
  | succ fuel ih =>
    rcases Nat.lt_or_ge i tagged.length with hi | hi
    · cases hmark : is_changed tagged[i] with
      | false =>
        rw [group_hunks_loop_unchanged fuel hi hmark, List.drop_eq_getElem_cons hi,
          List.countP_cons_of_neg (by simp [hmark])]
        exact ih (by omega)
      | true =>
        obtain ⟨hrun, hlen, -⟩ := run_end_spec hi hmark
        obtain ⟨hle, -, -⟩ := trailing_end_spec context hlen
        rw [group_hunks_loop_changed fuel hi hmark]
        generalize trailing_end tagged context (run_end tagged i) = trailing at *
        have hrest := @ih trailing (by omega)
        rw [List.flatten_cons, List.countP_append,
          ← slice_append_slice tagged (Nat.sub_le i context) (by omega : i ≤ trailing),
          List.countP_append, drop_eq_slice_append tagged (by omega : i ≤ trailing),
          List.countP_append]
        omega
    · rw [List.drop_eq_nil_of_le hi]
      simp

/-- The changes from `i` on stand far enough apart, and the first one of them far enough
behind `pos`, where the hunk before it ends. -/
def Apart (tagged : List DiffLine) (context pos i : Nat) : Prop :=
  (∀ b, i ≤ b → Marked is_changed tagged b → (∀ k, i ≤ k → k < b → ¬Marked is_changed tagged k) →
    pos ≤ b - context) ∧
  ∀ a b, i ≤ a → Marked is_changed tagged a → Marked is_changed tagged b → a + 1 < b →
    (∀ k, a < k → k < b → ¬Marked is_changed tagged k) → 2 * context ≤ b - a - 1

theorem apart_unchanged {pos : Nat} (hno : ¬Marked is_changed tagged i) :
    Apart tagged context pos i ↔ Apart tagged context pos (i + 1) := by
  have hbehind : ∀ {b}, i ≤ b → Marked is_changed tagged b → i + 1 ≤ b := by
    intro b hib hb
    rcases Nat.lt_or_eq_of_le hib with hlt | rfl
    · exact hlt
    · exact absurd hb hno
  constructor
  · rintro ⟨hfirst, hnext⟩
    refine ⟨fun b hib hb hfree => hfirst b (by omega) hb ?_, fun a b hia => hnext a b (by omega)⟩
    intro k hik hk hmark
    exact hfree k (hbehind hik hmark) hk hmark
  · rintro ⟨hfirst, hnext⟩
    refine ⟨fun b hib hb hfree => hfirst b (hbehind hib hb) hb ?_,
      fun a b hia ha => hnext a b (hbehind hia ha) ha⟩
    intro k hik
    exact hfree k (by omega)

/-- Behind the run at `i` the context of its hunk ends after `context` lines, or at the
next change, and the next hunk starts `context` lines before that change. -/
theorem apart_changed {pos : Nat} (hi : i < tagged.length) (hmark : is_changed tagged[i] = true) :
    Apart tagged context pos i ↔ pos ≤ i - context ∧
      Apart tagged context (trailing_end tagged context (run_end tagged i))
        (trailing_end tagged context (run_end tagged i)) := by
  obtain ⟨hrun, hlen, hmarked, hstop⟩ := run_end_spec hi hmark
  obtain ⟨hle, hmost, -, hfree, hshort⟩ := trailing_end_spec context hlen
  generalize run_end tagged i = end_ at *
  generalize trailing_end tagged context end_ = trailing at *
  constructor
  · rintro ⟨hfirst, hnext⟩
    refine ⟨hfirst i (Nat.le_refl i) ⟨hi, hmark⟩ (fun k hik hk => by omega), ?_,
      fun a b hia => hnext a b (by omega)⟩
    intro b hb hbmark hbfree
    have hne : b ≠ end_ := by
      rintro rfl
      exact hstop hbmark
    have hgap : 2 * context ≤ b - (end_ - 1) - 1 := by
      apply hnext (end_ - 1) b (by omega) (hmarked _ (by omega) (by omega)) hbmark (by omega)
      intro k hk hkb
      rcases Nat.lt_or_ge k trailing with hkt | hkt
      · exact hfree k (by omega) hkt
      · exact hbfree k hkt hkb
    omega
  · rintro ⟨hpos, hfirst, hnext⟩
    constructor
    · intro b hib _ hbfree
      rcases Nat.lt_or_eq_of_le hib with hlt | rfl
      · exact absurd ⟨hi, hmark⟩ (hbfree i (Nat.le_refl i) hlt)
      · exact hpos
    · intro a b hia ha hb hab hbetween
      rcases Nat.lt_or_ge a trailing with hat | hat
      · have haend : a < end_ := by
          by_contra hno
          exact hfree a (by omega) hat ha
        have hlast : ¬a + 1 < end_ := by
          intro hlt
          exact hbetween (a + 1) (by omega) hab (hmarked _ (by omega) hlt)
        have hbt : trailing ≤ b := by
          by_contra hno
          exact hfree b (by omega) (by omega) hb
        have hbfirst := hfirst b hbt hb fun k hk hkb => hbetween k (by omega) hkb
        by_cases hfull : trailing < end_ + context
        · -- the context stopped at a change, which is `b`
          have hmeet := hshort hfull (by obtain ⟨hlt, -⟩ := hb; omega)
          have hbeq : ¬trailing < b := by
            intro hlt
            exact hbetween trailing (by omega) hlt hmeet
          omega
        · omega
      · exact hnext a b hat ha hb hab hbetween

theorem slice_unchanged {pos : Nat}
    (hskip : ∀ j, pos ≤ j → j < i → ¬Marked is_changed tagged j) :
    ∀ l ∈ slice tagged pos i, is_changed l = false := by
  intro l hl
  obtain ⟨j, hj, hji, hget⟩ := mem_slice hl
  obtain ⟨hlt, rfl⟩ := List.getElem?_eq_some_iff.mp hget
  by_contra hno
  exact hskip j hj hji ⟨hlt, by simpa using hno⟩

theorem covered_group_hunks_loop_end (fuel : Nat) {pos : Nat} (hi : tagged.length ≤ i)
    (hpos : pos ≤ i) (hskip : ∀ j, pos ≤ j → j < i → ¬Marked is_changed tagged j) :
    Covered is_changed (tagged.drop pos) (group_hunks_loop tagged context fuel i) ↔
      Apart tagged context pos i := by
  have hnone : ∀ b, i ≤ b → ¬Marked is_changed tagged b := by
    rintro b hib ⟨hlt, -⟩
    omega
  rw [group_hunks_loop_end fuel hi]
  constructor
  · intro _
    exact ⟨fun b hib hb => absurd hb (hnone b hib), fun a b hia ha => absurd ha (hnone a hia)⟩
  · intro _
    apply Covered.done
    rw [drop_eq_slice_append tagged hpos, List.drop_eq_nil_of_le hi, List.append_nil]
    exact slice_unchanged hskip

/-- The loop at `i`, with the hunk before it up to `pos` and no change in between. -/
theorem covered_group_hunks_loop (fuel : Nat) {pos : Nat} (hfuel : tagged.length - i ≤ fuel)
    (hpos : pos ≤ i) (hskip : ∀ j, pos ≤ j → j < i → ¬Marked is_changed tagged j) :
    Covered is_changed (tagged.drop pos) (group_hunks_loop tagged context fuel i) ↔
      Apart tagged context pos i := by
  induction fuel generalizing i pos with
  | zero => exact covered_group_hunks_loop_end 0 (by omega) hpos hskip
  | succ fuel ih =>
    rcases Nat.lt_or_ge i tagged.length with hi | hi
    · cases hmark : is_changed tagged[i] with
      | false =>
        have hno : ¬Marked is_changed tagged i := by
          rintro ⟨_, hmark'⟩
          simp [hmark] at hmark'
        rw [group_hunks_loop_unchanged fuel hi hmark, apart_unchanged hno]
        apply ih (by omega) (by omega)
        intro j hj hji
        rcases Nat.lt_or_eq_of_le (Nat.le_of_lt_succ hji) with hlt | rfl
        · exact hskip j hj hlt
        · exact hno
      | true =>
        obtain ⟨hrun, hlen, -⟩ := run_end_spec hi hmark
        obtain ⟨hle, -, -⟩ := trailing_end_spec context hlen
        rw [group_hunks_loop_changed fuel hi hmark, apart_changed hi hmark,
          covered_slice_iff hpos (Nat.sub_le i context) hi (by omega) (slice_unchanged hskip) hmark
            (countP_group_hunks_loop fuel (by omega)),
          ih (by omega) (Nat.le_refl _) (fun j hj hji => by omega)]
    · exact covered_group_hunks_loop_end _ hi hpos hskip

theorem covered_group_hunks : Covered is_changed tagged (group_hunks tagged context) ↔
    Spaced is_changed tagged (2 * context) := by
  have h : Covered is_changed (tagged.drop 0) (group_hunks_loop tagged context tagged.length 0) ↔
      Apart tagged context 0 0 :=
    covered_group_hunks_loop _ (Nat.sub_le _ _) (Nat.le_refl 0) fun j hj hji => by omega
  rw [List.drop_zero] at h
  unfold group_hunks
  rw [h]
  constructor
  · intro hapart a b
    exact hapart.2 a b (Nat.zero_le a)
  · intro hspaced
    exact ⟨fun b _ _ _ => Nat.zero_le _, fun a b _ => hspaced a b⟩

/-! ## The counts of a diff -/

theorem tag_ops_counts (old_lines new_lines : List String) (ops : List Op) (t : Tagging)
    (h : t.added = t.tagged.countP (·.tag = '+') ∧ t.removed = t.tagged.countP (·.tag = '-')) :
    (tag_ops old_lines new_lines ops t).added =
        (tag_ops old_lines new_lines ops t).tagged.countP (·.tag = '+') ∧
      (tag_ops old_lines new_lines ops t).removed =
        (tag_ops old_lines new_lines ops t).tagged.countP (·.tag = '-') := by
  induction ops generalizing t with
  | nil => exact h
  | cons op ops ih =>
    apply ih (tag_op old_lines new_lines t op)
    cases op <;> simp [tag_op, h]

theorem tagging_counts (old_lines new_lines : List String) :
    (tagging old_lines new_lines).added =
        (tagging old_lines new_lines).tagged.countP (·.tag = '+') ∧
      (tagging old_lines new_lines).removed =
        (tagging old_lines new_lines).tagged.countP (·.tag = '-') :=
  tag_ops_counts old_lines new_lines _ _ (by simp)

/-- The hunks part the changes: they are slices of the tagged lines in order, none
reaches into another one, each change is in one of them, and they hold as many
added and removed lines as the diff counts. -/
structure Parted (tagged : List DiffLine) (context : Nat) : Prop where
  slices : Covered is_changed tagged (group_hunks tagged context)
  plus : (group_hunks tagged context).flatten.countP (·.tag = '+') = tagged.countP (·.tag = '+')
  minus : (group_hunks tagged context).flatten.countP (·.tag = '-') = tagged.countP (·.tag = '-')
  counted : ∀ old_lines new_lines, (tagging old_lines new_lines).tagged = tagged →
    (group_hunks tagged context).flatten.countP (·.tag = '+') =
        (tagging old_lines new_lines).added ∧
      (group_hunks tagged context).flatten.countP (·.tag = '-') =
        (tagging old_lines new_lines).removed

/-- The hunks part the changes exactly where two runs of changes have at least twice the
context between them. -/
theorem parted_iff_spaced (tagged : List DiffLine) (context : Nat) :
    Parted tagged context ↔ Spaced is_changed tagged (2 * context) := by
  constructor
  · intro h
    exact covered_group_hunks.mp h.slices
  · intro h
    have hslices := covered_group_hunks.mpr h
    have hplus := hslices.countP_eq (q := fun l => l.tag = '+') (by simp +contextual [is_changed])
    have hminus := hslices.countP_eq (q := fun l => l.tag = '-') (by simp +contextual [is_changed])
    refine ⟨hslices, hplus, hminus, ?_⟩
    intro old_lines new_lines heq
    obtain ⟨hadded, hremoved⟩ := tagging_counts old_lines new_lines
    rw [hplus, hminus, hadded, hremoved, heq]
    exact ⟨rfl, rfl⟩

end

/-- Two changes with one line between them and a context of 3: the first one is shown twice. -/
theorem close_changes_not_parted : ¬∀ tagged context, Parted tagged context := by
  intro h
  have hplus := (h (tagging ["a", "b", "c"] ["A", "b", "C"]).tagged 3).plus
  revert hplus
  decide

end kaptein_viewmodel.diff
