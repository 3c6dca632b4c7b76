-- The string functions of the Rust standard library that the models use,
-- as functions on the characters of a string. Rust indexes a `str` by
-- bytes; every function here gives the same answer on the characters.
import Mathlib.Algebra.Group.Int.Defs
import Mathlib.Algebra.Group.Nat.Defs
import Mathlib.Data.List.Basic
import Mathlib.Data.List.DropRight

namespace rust_str

/-! ## Tests -/

/-- `str::to_ascii_lowercase`: only the letters `A` to `Z` change. -/
def to_ascii_lowercase (s : String) : String := String.ofList (s.toList.map Char.toLower)

def to_ascii_uppercase (s : String) : String := String.ofList (s.toList.map Char.toUpper)

def eq_ignore_ascii_case (s t : String) : Bool := to_ascii_lowercase s == to_ascii_lowercase t

def starts_with (s pat : String) : Bool := pat.toList.isPrefixOf s.toList

def ends_with (s pat : String) : Bool := pat.toList.isSuffixOf s.toList

/-- `str::contains`: the pattern starts at some place of the string. -/
def contains (s pat : String) : Bool := s.toList.tails.any fun t => pat.toList.isPrefixOf t

/-- `char::is_whitespace`, the Unicode property `White_Space`. -/
def is_whitespace (c : Char) : Bool :=
  let n := c.toNat
  (9 ≤ n && n ≤ 13) || n == 0x20 || n == 0x85 || n == 0xA0 || n == 0x1680 ||
    (0x2000 ≤ n && n ≤ 0x200A) || n == 0x2028 || n == 0x2029 || n == 0x202F || n == 0x205F ||
    n == 0x3000

theorem isUpper_iff {c : Char} : c.isUpper ↔ 65 ≤ c.toNat ∧ c.toNat ≤ 90 := decide_eq_true_iff

theorem isLower_iff {c : Char} : c.isLower ↔ 97 ≤ c.toNat ∧ c.toNat ≤ 122 :=
  Bool.and_eq_true_iff.trans (and_congr decide_eq_true_iff decide_eq_true_iff)

theorem isAlpha_iff {c : Char} : c.isAlpha ↔ c.isUpper ∨ c.isLower := Bool.or_eq_true_iff

/-- What is no letter in lower case was no letter before. -/
theorem toLower_eq {c d : Char} (h : c.toLower = d) (hd : d.toNat < 97 ∨ 122 < d.toNat) :
    c = d := by
  unfold Char.toLower at h
  split at h
  · next hup =>
    subst h
    have h32 : ('a'.val - 'A'.val).toNat = 32 := rfl
    have hA : 'A'.val.toNat = 65 := rfl
    have hZ : 'Z'.val.toNat = 90 := rfl
    simp only [Char.toNat, ge_iff_le, UInt32.le_iff_toNat_le, UInt32.toNat_add] at hup hd
    omega
  · exact h

/-- A letter in lower case stays as it is. -/
theorem toLower_toLower (c : Char) : c.toLower.toLower = c.toLower := by
  by_cases hup : c.val ≥ 'A'.val ∧ c.val ≤ 'Z'.val
  · have h32 : ('a'.val - 'A'.val).toNat = 32 := rfl
    have hA : 'A'.val.toNat = 65 := rfl
    have hZ : 'Z'.val.toNat = 90 := rfl
    unfold Char.toLower
    rw [dif_pos hup, dif_neg]
    simp only [ge_iff_le, UInt32.le_iff_toNat_le, UInt32.toNat_add] at hup ⊢
    omega
  · have hsame : c.toLower = c := dif_neg hup
    rw [hsame, hsame]

/-- White space has no lower case. -/
theorem toLower_of_whitespace {c : Char} (h : is_whitespace c) : c.toLower = c := by
  unfold Char.toLower
  rw [dif_neg]
  rintro ⟨hA, hZ⟩
  have hA' : 'A'.val.toNat = 65 := rfl
  have hZ' : 'Z'.val.toNat = 90 := rfl
  simp only [ge_iff_le, UInt32.le_iff_toNat_le] at hA hZ
  simp only [is_whitespace, Char.toNat, Bool.or_eq_true, Bool.and_eq_true, decide_eq_true_eq,
    beq_iff_eq] at h
  omega

/-! ## Parts of a string -/

/-- `str::trim`. -/
def trim (s : String) : String :=
  String.ofList ((s.toList.dropWhile is_whitespace).reverse.dropWhile is_whitespace).reverse

theorem trim_eq_empty {s : String} :
    trim s = "" ↔ ∀ c ∈ s.toList, is_whitespace c = true := by
  unfold trim
  rw [← String.ofList_nil, String.ofList_inj, List.reverse_eq_nil_iff, List.dropWhile_eq_nil_iff]
  simp only [List.mem_reverse]
  constructor
  · intro h
    have hall := List.dropWhile_eq_nil_iff.mpr h
    rw [List.dropWhile_idempotent] at hall
    exact List.dropWhile_eq_nil_iff.mp hall
  · intro h c hc
    rw [List.dropWhile_eq_nil_iff.mpr h] at hc
    cases hc

theorem trim_of_none {s : String} (h : ∀ c ∈ s.toList, is_whitespace c = false) : trim s = s := by
  have hkeep : ∀ cs : List Char, (∀ c ∈ cs, is_whitespace c = false) →
      cs.dropWhile is_whitespace = cs := by
    intro cs hcs
    cases cs with
    | nil => rfl
    | cons c cs =>
      apply List.dropWhile_cons_of_neg
      simp [hcs c List.mem_cons_self]
  unfold trim
  rw [hkeep _ h, hkeep _ (by simpa using h), List.reverse_reverse, String.ofList_toList]

/-- `str::strip_prefix` by one character. -/
def strip_prefix (c : Char) (s : String) : Option String :=
  match s.toList with
  | c' :: cs => if c' = c then some (String.ofList cs) else none
  | [] => none

/-- The pieces between the separators, the last one included: `n`
separators give `n + 1` pieces. -/
def pieces (sep : Char) : List Char → List (List Char)
  | [] => [[]]
  | c :: cs =>
    if c = sep then [] :: pieces sep cs
    else
      match pieces sep cs with
      | [] => [[c]]
      | p :: ps => (c :: p) :: ps

/-- `str::split` by one character. -/
def split (sep : Char) (s : String) : List String := (pieces sep s.toList).map String.ofList

/-- The pieces between the matches of a text. The number counts the characters of a match
that are still to pass. -/
def text_pieces (pat : List Char) : Nat → List Char → List (List Char)
  | _, [] => [[]]
  | skip + 1, _ :: cs => text_pieces pat skip cs
  | 0, c :: cs =>
    if pat.isPrefixOf (c :: cs) then [] :: text_pieces pat (pat.length - 1) cs
    else
      match text_pieces pat 0 cs with
      | [] => [[c]]
      | p :: ps => (c :: p) :: ps

/-- `str::split` by a text that is not empty. -/
def split_text (pat s : String) : List String :=
  (text_pieces pat.toList 0 s.toList).map String.ofList

/-- The ends of the lines taken off: `\r` goes with the `\n` behind it, and what
stands behind the last `\n` is a line unless it is empty. -/
def line_texts : List (List Char) → List (List Char)
  | [] => []
  | [last] => if last = [] then [] else [last]
  | p :: ps => (if p.getLast? = some '\r' then p.dropLast else p) :: line_texts ps

/-- `str::lines`. -/
def lines (s : String) : List String := (line_texts (pieces '\n' s.toList)).map String.ofList

example : lines "a\r\nb\n\nc" = ["a", "b", "", "c"] := by decide

/-- A text is its pieces with the separators between them, and no piece has one. -/
theorem pieces_eq (sep : Char) (cs : List Char) : ∃ p ps, pieces sep cs = p :: ps ∧
    cs = List.intercalate [sep] (p :: ps) ∧ ∀ q ∈ p :: ps, sep ∉ q := by
  induction cs with
  | nil => exact ⟨[], [], rfl, rfl, by simp⟩
  | cons c cs ih =>
    obtain ⟨p, ps, hp, hcs, hno⟩ := ih
    by_cases hc : c = sep
    · subst hc
      refine ⟨[], p :: ps, by rw [pieces, if_pos rfl, hp], ?_, ?_⟩
      · rw [List.intercalate_cons_cons, ← hcs]
        rfl
      · simpa using hno
    · refine ⟨c :: p, ps, by rw [pieces, if_neg hc, hp], ?_, ?_⟩
      · cases ps with
        | nil => simpa [List.intercalate] using hcs
        | cons q ps =>
          rw [List.intercalate_cons_cons] at hcs ⊢
          rw [hcs]
          rfl
      · intro q hq
        rcases List.mem_cons.mp hq with rfl | hq
        · rw [List.mem_cons, not_or]
          exact ⟨fun h => hc h.symm, hno p List.mem_cons_self⟩
        · exact hno q (List.mem_cons_of_mem _ hq)

theorem pieces_of_not_mem {sep : Char} {cs : List Char} (h : sep ∉ cs) : pieces sep cs = [cs] := by
  induction cs with
  | nil => rfl
  | cons c cs ih =>
    rw [List.mem_cons, not_or] at h
    rw [pieces, if_neg (Ne.symm h.1), ih h.2]

theorem pieces_append {sep : Char} {cs : List Char} (h : sep ∉ cs) (rest : List Char) :
    pieces sep (cs ++ sep :: rest) = cs :: pieces sep rest := by
  induction cs with
  | nil => rw [List.nil_append, pieces, if_pos rfl]
  | cons c cs ih =>
    rw [List.mem_cons, not_or] at h
    rw [List.cons_append, pieces, if_neg (Ne.symm h.1), ih h.2]

theorem pieces_append_sep (sep : Char) (cs rest : List Char) :
    pieces sep (cs ++ sep :: rest) = pieces sep cs ++ pieces sep rest := by
  induction cs with
  | nil => simp [pieces]
  | cons c cs ih =>
    obtain ⟨p, ps, hp, -⟩ := pieces_eq sep cs
    rw [List.cons_append, pieces, pieces, ih, hp]
    split
    · rfl
    · rfl

theorem line_texts_append (ps : List (List Char)) {qs : List (List Char)} (h : qs ≠ []) :
    line_texts (ps ++ qs) =
      (ps.map fun p => if p.getLast? = some '\r' then p.dropLast else p) ++ line_texts qs := by
  induction ps with
  | nil => rfl
  | cons p ps ih =>
    have hcons : ∀ rs : List (List Char), rs ≠ [] → line_texts (p :: rs) =
        (if p.getLast? = some '\r' then p.dropLast else p) :: line_texts rs := by
      intro rs hrs
      cases rs with
      | nil => exact absurd rfl hrs
      | cons r rs => rfl
    rw [List.cons_append, hcons _ (by simp [h]), ih]
    rfl

/-- The lines of a text up to the end of a line, and the lines behind it. -/
theorem lines_append (t rest : String) :
    lines (t ++ "\n" ++ rest) = lines (t ++ "\n") ++ lines rest := by
  have hpieces : ∀ s : String, pieces '\n' (t ++ "\n" ++ s).toList =
      pieces '\n' t.toList ++ pieces '\n' s.toList := by
    intro s
    rw [← pieces_append_sep]
    simp
  have hne : ∀ s : String, pieces '\n' s.toList ≠ [] := by
    intro s
    obtain ⟨p, ps, hp, -⟩ := pieces_eq '\n' s.toList
    simp [hp]
  have hnone : lines (t ++ "\n") = lines (t ++ "\n" ++ "") := by rw [String.append_empty]
  rw [hnone]
  simp only [lines, hpieces, line_texts_append _ (hne _), List.map_append]
  simp [pieces, line_texts]

/-- The first line of a text, up to its end, and the lines behind it. -/
theorem lines_cons (t rest : String) (h : '\n' ∉ t.toList) : lines (t ++ "\n" ++ rest) =
    String.ofList (if t.toList.getLast? = some '\r' then t.toList.dropLast else t.toList) ::
      lines rest := by
  have hpieces : pieces '\n' (t ++ "\n").toList = [t.toList, []] := by
    rw [String.toList_append]
    exact pieces_append h []
  rw [lines_append]
  simp only [lines, hpieces]
  rfl

theorem line_texts_no_newline {ps : List (List Char)} (h : ∀ p ∈ ps, '\n' ∉ p) :
    ∀ l ∈ line_texts ps, '\n' ∉ l := by
  induction ps with
  | nil => simp [line_texts]
  | cons p ps ih =>
    have hp := h p List.mem_cons_self
    have hps := ih fun q hq => h q (List.mem_cons_of_mem _ hq)
    cases ps with
    | nil =>
      rw [line_texts]
      split
      · simp
      · simpa using hp
    | cons q ps =>
      have hcons : line_texts (p :: q :: ps) =
          (if p.getLast? = some '\r' then p.dropLast else p) :: line_texts (q :: ps) := rfl
      rw [hcons]
      intro l hl
      rcases List.mem_cons.mp hl with rfl | hl
      · split
        · exact fun hmem => hp (List.dropLast_subset _ hmem)
        · exact hp
      · exact hps l hl

theorem no_newline_of_mem_lines {s l : String} (h : l ∈ lines s) : '\n' ∉ l.toList := by
  obtain ⟨cs, hcs, rfl⟩ := List.mem_map.mp h
  obtain ⟨p, ps, hp, -, hno⟩ := pieces_eq '\n' s.toList
  rw [hp] at hcs
  rw [String.toList_ofList]
  exact line_texts_no_newline hno cs hcs

/-- `str::rfind` of one character. -/
def rfind (c : Char) (cs : List Char) : Option Nat :=
  (cs.reverse.findIdx? (· == c)).map fun i => cs.length - 1 - i

theorem rfind_append_cons {c : Char} (xs ys : List Char) (h : c ∉ ys) :
    rfind c (xs ++ c :: ys) = some xs.length := by
  have hys : ys.reverse.findIdx? (· == c) = none := by
    rw [List.findIdx?_eq_none_iff]
    intro d hd
    rw [beq_eq_false_iff_ne]
    rintro rfl
    exact h (List.mem_reverse.mp hd)
  unfold rfind
  rw [List.reverse_append, List.reverse_cons, List.append_assoc, List.findIdx?_append, hys]
  simp [List.findIdx?_cons]

/-- The character found, and what stands on both sides of it. -/
theorem rfind_eq_some {c : Char} {cs : List Char} {i : Nat} (h : rfind c cs = some i) :
    ∃ xs ys, cs = xs ++ c :: ys ∧ c ∉ ys ∧ i = xs.length := by
  by_cases hc : c ∈ cs
  · obtain ⟨ys, xs, hrev, hno⟩ := List.eq_append_cons_of_mem (List.mem_reverse.mpr hc)
    have hcs : cs = xs.reverse ++ c :: ys.reverse := by
      rw [← List.reverse_reverse cs, hrev]
      simp
    have hno' : c ∉ ys.reverse := by
      rw [List.mem_reverse]
      exact hno
    rw [hcs, rfind_append_cons _ _ hno', Option.some.injEq] at h
    exact ⟨_, _, hcs, hno', h.symm⟩
  · have hnone : cs.reverse.findIdx? (· == c) = none := by
      rw [List.findIdx?_eq_none_iff]
      intro d hd
      rw [beq_eq_false_iff_ne]
      rintro rfl
      exact hc (List.mem_reverse.mp hd)
    unfold rfind at h
    rw [hnone] at h
    cases h

/-- The value of a run of decimal digits, or `none` for any other character. -/
def digits_value (cs : List Char) : Option Nat :=
  cs.foldl (fun acc c => acc.bind fun n =>
    if c.isDigit then some (10 * n + (c.toNat - 48)) else none) (some 0)

/-- `str::parse::<usize>` on a 64-bit machine: one `+` may stand first,
then at least one digit, and the value fits 64 bits. -/
def parse_usize (cs : List Char) : Option Nat :=
  let digits := match cs with
    | '+' :: rest => rest
    | _ => cs
  if digits = [] then none
  else (digits_value digits).bind fun n => if n < 2 ^ 64 then some n else none

/-- Another character makes the whole run no number. -/
theorem digits_value_none (cs : List Char) : cs.foldl (fun acc c => acc.bind fun n =>
    if c.isDigit then some (10 * n + (c.toNat - 48)) else none) none = none := by
  induction cs with
  | nil => rfl
  | cons c cs ih => exact ih

theorem digits_value_eq_some {cs : List Char} {n : Nat} : digits_value cs = some n ↔
    (∀ c ∈ cs, c.isDigit = true) ∧ Nat.ofDigitChars 10 cs 0 = n := by
  unfold digits_value
  generalize 0 = start
  induction cs generalizing start with
  | nil => simp
  | cons c cs ih =>
    rw [List.foldl_cons, Option.bind_some]
    by_cases hc : c.isDigit = true
    · rw [if_pos hc, ih, List.forall_mem_cons, Nat.ofDigitChars_cons]
      simp [hc]
    · rw [if_neg hc, digits_value_none]
      simp [hc]

/-- `str::parse::<u32>`: the same digits, and the value fits 32 bits. -/
def parse_u32 (cs : List Char) : Option Nat :=
  (parse_usize cs).bind fun n => if n < 2 ^ 32 then some n else none

/-- The texts of a `u32`: a non-empty run of decimal digits, and its value. -/
def IsU32 (cs : List Char) (n : Nat) : Prop :=
  cs ≠ [] ∧ (∀ c ∈ cs, c.isDigit = true) ∧ Nat.ofDigitChars 10 cs 0 = n ∧ n < 2 ^ 32

theorem IsU32.not_mem {cs : List Char} {n : Nat} (h : IsU32 cs n) {c : Char}
    (hc : c.isDigit = false) : c ∉ cs := by
  intro hmem
  rw [h.2.1 c hmem] at hc
  cases hc

theorem isU32_iff_digits_value {ds : List Char} {n : Nat} :
    IsU32 ds n ↔ ds ≠ [] ∧ digits_value ds = some n ∧ n < 2 ^ 32 := by
  unfold IsU32
  rw [digits_value_eq_some]
  simp only [and_assoc]

/-- What is parsed is such a text, or one behind a `+`. -/
theorem parse_u32_eq_some {cs : List Char} {n : Nat} :
    parse_u32 cs = some n ↔ IsU32 cs n ∨ ∃ ds, cs = '+' :: ds ∧ IsU32 ds n := by
  have hdigits : ∀ ds : List Char, ((if ds = [] then none else (digits_value ds).bind fun m =>
      if m < 2 ^ 64 then some m else none).bind fun m => if m < 2 ^ 32 then some m else none) =
        some n ↔ IsU32 ds n := by
    intro ds
    rw [isU32_iff_digits_value]
    by_cases hne : ds = []
    · simp [hne]
    · rw [if_neg hne]
      cases digits_value ds with
      | none => simp
      | some m =>
        simp only [Option.bind_some, ne_eq, hne, not_false_eq_true, true_and, Option.some.injEq]
        by_cases hm : m < 2 ^ 64
        · rw [if_pos hm, Option.bind_some]
          split
          · simp only [Option.some.injEq]
            omega
          · simp only [reduceCtorEq, false_iff]
            omega
        · rw [if_neg hm]
          simp only [Option.bind_none, reduceCtorEq, false_iff]
          omega
  have hplus : ∀ ds, ¬IsU32 ('+' :: ds) n := by
    intro ds h
    exact h.not_mem (by decide : '+'.isDigit = false) List.mem_cons_self
  unfold parse_u32 parse_usize
  dsimp only
  split
  · rename_i ds
    rw [hdigits]
    constructor
    · intro h
      exact Or.inr ⟨ds, rfl, h⟩
    · rintro (h | ⟨ds', heq, h⟩)
      · exact absurd h (hplus ds)
      · cases heq
        exact h
  · rename_i hno
    rw [hdigits]
    constructor
    · exact Or.inl
    · rintro (h | ⟨ds, heq, -⟩)
      · exact h
      · exact absurd heq (hno ds)

theorem parse_u32_of_isU32 {cs : List Char} {n : Nat} (h : IsU32 cs n) : parse_u32 cs = some n :=
  parse_u32_eq_some.mpr (Or.inl h)

/-- The text that `Display` writes of a number. -/
theorem isU32_repr {n : Nat} (h : n < 2 ^ 32) : IsU32 (toString n).toList n := by
  have htext : (toString n).toList = Nat.toDigits 10 n := Nat.toList_repr
  rw [htext]
  refine ⟨Nat.toDigits_ne_nil, ?_, Nat.ofDigitChars_ten_toDigits, h⟩
  intro c hc
  exact Nat.isDigit_of_mem_toDigits (by decide) (by decide) hc

end rust_str
