-- A text and the bytes that UTF-8 writes it in. A place in a `str` is a
-- number of bytes, and only some of these numbers are a place between two
-- characters.
import Mathlib.Data.List.Basic

namespace utf8

/-- The number of bytes of a text. -/
def byte_len : List Char → Nat
  | [] => 0
  | c :: cs => c.utf8Size + byte_len cs

@[simp] theorem byte_len_nil : byte_len [] = 0 := rfl

@[simp] theorem byte_len_cons (c : Char) (cs : List Char) :
    byte_len (c :: cs) = c.utf8Size + byte_len cs := rfl

@[simp] theorem byte_len_append (xs ys : List Char) :
    byte_len (xs ++ ys) = byte_len xs + byte_len ys := by
  induction xs with
  | nil => simp
  | cons c xs ih => simp [ih, Nat.add_assoc]

/-- The text before a place and the text after it, or `none` when the place
is inside a character or past the end. -/
def split_at_byte : Nat → List Char → Option (List Char × List Char)
  | 0, cs => some ([], cs)
  | _ + 1, [] => none
  | n + 1, c :: cs =>
    if c.utf8Size ≤ n + 1 then
      (split_at_byte (n + 1 - c.utf8Size) cs).map fun (a, b) => (c :: a, b)
    else none

/-- `str::is_char_boundary`. -/
def is_char_boundary (cs : List Char) (n : Nat) : Prop := ∃ a b, cs = a ++ b ∧ byte_len a = n

theorem split_at_byte_append (a b : List Char) :
    split_at_byte (byte_len a) (a ++ b) = some (a, b) := by
  induction a with
  | nil => cases b <;> rfl
  | cons c a ih =>
    have hpos := c.utf8Size_pos
    obtain ⟨n, hn⟩ : ∃ n, byte_len (c :: a) = n + 1 := ⟨byte_len (c :: a) - 1, by simp; omega⟩
    have hle : c.utf8Size ≤ n + 1 := by
      rw [← hn, byte_len_cons]
      omega
    have hrest : n + 1 - c.utf8Size = byte_len a := by
      rw [← hn, byte_len_cons]
      omega
    rw [hn, List.cons_append, split_at_byte, if_pos hle, hrest, ih]
    rfl

/-! ## A range of bytes replaced -/

/-- `String::replace_range`. It panics, here `none`, when the range ends
before it starts, and when an end is no place between two characters. -/
def replace_range (start end_ : Nat) (replace_with text : List Char) : Option (List Char) :=
  if end_ < start then none
  else
    (split_at_byte start text).bind fun (a, rest) =>
      (split_at_byte (end_ - start) rest).map fun (_, b) => a ++ replace_with ++ b

/-- A range that `replace_range` may take. -/
structure ValidRange (text : List Char) (start end_ : Nat) : Prop where
  ordered : start ≤ end_
  inside : end_ ≤ byte_len text
  start_boundary : is_char_boundary text start
  end_boundary : is_char_boundary text end_

theorem replace_range_append (a v b mark : List Char) :
    replace_range (byte_len a) (byte_len a + byte_len v) mark (a ++ (v ++ b)) =
      some (a ++ mark ++ b) := by
  rw [replace_range, if_neg (by omega), split_at_byte_append, Nat.add_sub_cancel_left]
  simp [split_at_byte_append]

theorem validRange_append (a v b : List Char) :
    ValidRange (a ++ (v ++ b)) (byte_len a) (byte_len a + byte_len v) where
  ordered := by omega
  inside := by simp
  start_boundary := ⟨a, v ++ b, rfl, rfl⟩
  end_boundary := ⟨a ++ v, b, by simp, by simp⟩

/-- The ranges replaced from the last one to the first. -/
def replace_ranges (ranges : List (Nat × Nat)) (mark text : List Char) : Option (List Char) :=
  ranges.foldr (fun (start, end_) out => out.bind (replace_range start end_ mark)) (some text)

/-- A range that ends before it starts stops the replacement. -/
theorem replace_ranges_none {ranges : List (Nat × Nat)} {start end_ : Nat} (mark text : List Char)
    (hmem : (start, end_) ∈ ranges) (h : end_ < start) :
    replace_ranges ranges mark text = none := by
  induction ranges with
  | nil => cases hmem
  | cons r ranges ih =>
    rw [replace_ranges, List.foldr_cons]
    cases hmem with
    | head =>
      rw [Option.bind_eq_none_iff]
      intro out _
      simp [replace_range, h]
    | tail _ hmem =>
      rw [← replace_ranges, ih hmem]
      rfl

/-- The ranges mark parts of the text that follow each other, the first of
them at the byte `off` or later. The last text has the mark for each part. -/
inductive Masks (mark : List Char) : Nat → List Char → List (Nat × Nat) → List Char → Prop
  | done (off : Nat) (text : List Char) : Masks mark off text [] text
  | next {off : Nat} {rest out : List Char} {ranges : List (Nat × Nat)} (gap v : List Char)
      (later : Masks mark (off + byte_len gap + byte_len v) rest ranges out) :
      Masks mark off (gap ++ (v ++ rest))
        ((off + byte_len gap, off + byte_len gap + byte_len v) :: ranges) (gap ++ mark ++ out)

/-- The text in front of the first part may be longer. -/
theorem Masks.shift {mark text out : List Char} {ranges : List (Nat × Nat)} {off : Nat}
    (p : List Char) (h : Masks mark (off + byte_len p) text ranges out) :
    Masks mark off (p ++ text) ranges (p ++ out) := by
  cases h with
  | done => exact .done off (p ++ text)
  | @next _ rest out ranges gap v later =>
    rw [Nat.add_assoc off, ← byte_len_append] at later ⊢
    simp only [← List.append_assoc]
    rw [List.append_assoc (p ++ gap)]
    exact .next (p ++ gap) v later

/-- Every range is one that `replace_range` may take, when its turn comes. -/
def ValidReplay (ranges : List (Nat × Nat)) (mark text : List Char) : Prop :=
  ∀ before start end_ after, ranges = before ++ (start, end_) :: after →
    ∃ now, replace_ranges after mark text = some now ∧ ValidRange now start end_

/-- The replacement of parts that follow each other: the later ones come
first, so each range still finds its part. -/
theorem replace_ranges_masks {mark text out : List Char} {ranges : List (Nat × Nat)} {off : Nat}
    (h : Masks mark off text ranges out) (pre : List Char) (hoff : byte_len pre = off) :
    replace_ranges ranges mark (pre ++ text) = some (pre ++ out) := by
  induction h generalizing pre with
  | done => rfl
  | @next off rest out ranges gap v _ ih =>
    have hlater := ih (pre ++ gap ++ v) (by simp [hoff, Nat.add_assoc])
    rw [List.append_assoc (pre ++ gap), List.append_assoc pre] at hlater
    have hstart : off + byte_len gap = byte_len (pre ++ gap) := by simp [hoff]
    rw [replace_ranges, List.foldr_cons, ← replace_ranges, hlater]
    simp only [Option.bind_some, hstart]
    rw [← List.append_assoc pre, List.append_assoc (pre ++ gap), replace_range_append]
    simp

theorem validReplay_masks {mark text out : List Char} {ranges : List (Nat × Nat)} {off : Nat}
    (h : Masks mark off text ranges out) (pre : List Char) (hoff : byte_len pre = off) :
    ValidReplay ranges mark (pre ++ text) := by
  induction h generalizing pre with
  | done =>
    intro before start end_ after hranges
    cases before <;> cases hranges
  | @next off rest out ranges gap v hmasks ih =>
    intro before start end_ after hranges
    have hlen : byte_len (pre ++ gap ++ v) = off + byte_len gap + byte_len v := by
      simp [hoff, Nat.add_assoc]
    cases before with
    | nil =>
      cases hranges
      have hlater := replace_ranges_masks hmasks (pre ++ gap ++ v) hlen
      have hstart : off + byte_len gap = byte_len (pre ++ gap) := by simp [hoff]
      simp only [List.append_assoc] at hlater
      refine ⟨_, hlater, ?_⟩
      rw [hstart, ← List.append_assoc]
      exact validRange_append (pre ++ gap) v out
    | cons r before =>
      have htail := (List.cons.inj hranges).2
      have := ih (pre ++ gap ++ v) hlen before start end_ after htail
      simpa only [List.append_assoc] using this

end utf8
