-- Regular expressions with a leftmost-first search, as the `regex` crate
-- has them: of the matches that start at the leftmost place, the one that a
-- search by backtracking meets first.
import Kaptein.Lib.Utf8

open utf8

namespace regex

/-- The part of the text that a group has matched. -/
structure Match where
  start : Nat
  text : List Char
  deriving DecidableEq, Repr

def Match.end_ (m : Match) : Nat := m.start + byte_len m.text

/-- The groups of one match by their numbers. Group 0 is the whole match. -/
abbrev Captures := List (Nat × Match)

/-- `Captures::get`. -/
def Captures.get (c : Captures) (n : Nat) : Option Match := (c.find? fun g => g.1 == n).map Prod.snd

/-- A pattern. A class is a test of one character, and `many` is its
greedy repetition `[..]*`. -/
inductive Regex where
  | empty
  | one (p : Char → Bool)
  | many (p : Char → Bool)
  | boundary
  | seq (a b : Regex)
  | alt (a b : Regex)
  | group (n : Nat) (r : Regex)

namespace Regex

/-- `[..]+`. -/
def some_of (p : Char → Bool) : Regex := .seq (.one p) (.many p)

/-- `r?`. -/
def opt (r : Regex) : Regex := .alt r .empty

/-- The alternatives of a group `(?:a|b|..)`, the first one tried first. -/
def any_of (r : Regex) (rs : List Regex) : Regex := rs.foldl .alt r

/-- The simple case folding of Unicode as far as it reaches a letter of
ASCII: two letters outside ASCII fold to `s` and to `k`. -/
def fold_case (c : Char) : Char :=
  if c = '\u017f' then 's' else if c = '\u212a' then 'k' else c.toLower

/-- Lower-case letters, digits and `_` under the flag `(?i)`. -/
def letters : List Char → Regex
  | [] => .empty
  | c :: cs => .seq (.one fun c' => fold_case c' == c) (letters cs)

def literal (s : String) : Regex := letters s.toList

/-- The numbers of the groups of a pattern. -/
def groups : Regex → List Nat
  | .empty => []
  | .one _ => []
  | .many _ => []
  | .boundary => []
  | .seq a b => groups a ++ groups b
  | .alt a b => groups a ++ groups b
  | .group n r => n :: groups r

end Regex

section Search

-- `\w`, the word characters of Unicode.
variable (word : Char → Bool)

/-- `\b`: a word character stands on one side only. -/
def at_boundary (before after : List Char) : Bool :=
  before.getLast?.any word != after.head?.any word

/-- The runs of a class that a text starts with, the longest one first. -/
def runs (p : Char → Bool) : List Char → List (List Char)
  | [] => [[]]
  | c :: cs => if p c then (runs p cs).map (c :: ·) ++ [[]] else [[]]

/-- The matches at one place of a text, in the order of the search. -/
def results : Regex → List Char → List Char → List (List Char × Captures)
  | .empty, _, _ => [([], [])]
  | .one _, _, [] => []
  | .one p, _, c :: _ => if p c then [([c], [])] else []
  | .many p, _, after => (runs p after).map fun u => (u, [])
  | .boundary, before, after => if at_boundary word before after then [([], [])] else []
  | .seq a b, before, after =>
    (results a before after).flatMap fun (u, gs) =>
      (results b (before ++ u) (after.drop u.length)).map fun (v, hs) => (u ++ v, gs ++ hs)
  | .alt a b, before, after => results a before after ++ results b before after
  | .group n r, before, after =>
    (results r before after).map fun (u, gs) => (u, (n, ⟨byte_len before, u⟩) :: gs)

def first (r : Regex) (before after : List Char) : Option (List Char × Captures) :=
  (results word r before after).head?

/-- The matches from a place on. The next search starts where the last
match ends, so the characters of a match are skipped. A match here has a
character at least. -/
def captures_from (r : Regex) : Nat → List Char → List Char → List Captures
  | _, _, [] => []
  | skip + 1, before, c :: cs => captures_from r skip (before ++ [c]) cs
  | 0, before, c :: cs =>
    match first word (.group 0 r) before (c :: cs) with
    | none => captures_from r 0 (before ++ [c]) cs
    | some (u, groups) => groups :: captures_from r (u.length - 1) (before ++ [c]) cs

/-- `Regex::captures_iter`. -/
def captures_iter (r : Regex) (text : List Char) : List Captures := captures_from word r 0 [] text

/-! ## The language of a pattern -/

/-- The pattern matches `u` between `before` and `rest`. -/
inductive Matches : Regex → List Char → List Char → List Char → Captures → Prop
  | empty (before rest) : Matches .empty before [] rest []
  | one {p : Char → Bool} {c : Char} (before rest) (h : p c) : Matches (.one p) before [c] rest []
  | many {p : Char → Bool} {u : List Char} (before rest) (h : ∀ c ∈ u, p c) :
      Matches (.many p) before u rest []
  | boundary {before rest : List Char} (h : at_boundary word before rest) :
      Matches .boundary before [] rest []
  | seq {a b : Regex} {before u v rest : List Char} {gs hs : Captures}
      (ha : Matches a before u (v ++ rest) gs) (hb : Matches b (before ++ u) v rest hs) :
      Matches (.seq a b) before (u ++ v) rest (gs ++ hs)
  | altl {a b : Regex} {before u rest : List Char} {gs : Captures}
      (h : Matches a before u rest gs) : Matches (.alt a b) before u rest gs
  | altr {a b : Regex} {before u rest : List Char} {gs : Captures}
      (h : Matches b before u rest gs) : Matches (.alt a b) before u rest gs
  | group {n : Nat} {r : Regex} {before u rest : List Char} {gs : Captures}
      (h : Matches r before u rest gs) :
      Matches (.group n r) before u rest ((n, ⟨byte_len before, u⟩) :: gs)

/-- A first part without groups. -/
theorem Matches.seq_plain {a b : Regex} {before u v rest : List Char} {hs : Captures}
    (ha : Matches word a before u (v ++ rest) []) (hb : Matches word b (before ++ u) v rest hs) :
    Matches word (.seq a b) before (u ++ v) rest hs :=
  .seq ha hb

theorem mem_runs {p : Char → Bool} {u cs : List Char} :
    u ∈ runs p cs ↔ (∃ rest, cs = u ++ rest) ∧ ∀ c ∈ u, p c := by
  induction cs generalizing u with
  | nil =>
    simp only [runs, List.mem_singleton]
    constructor
    · rintro rfl
      simp
    · rintro ⟨⟨rest, hrest⟩, _⟩
      exact (List.append_eq_nil_iff.mp hrest.symm).1
  | cons c cs ih =>
    rw [runs]
    split
    · next hc =>
      simp only [List.mem_append, List.mem_map, List.mem_singleton, ih]
      constructor
      · rintro (⟨v, ⟨⟨rest, rfl⟩, hv⟩, rfl⟩ | rfl)
        · exact ⟨⟨rest, rfl⟩, by simpa using ⟨hc, hv⟩⟩
        · simp
      · rintro ⟨⟨rest, hrest⟩, hu⟩
        cases u with
        | nil => exact .inr rfl
        | cons d v =>
          cases hrest
          exact .inl ⟨v, ⟨⟨rest, rfl⟩, fun x hx => hu x (.tail _ hx)⟩, rfl⟩
    · next hc =>
      rw [List.mem_singleton]
      constructor
      · rintro rfl
        simp
      · rintro ⟨⟨rest, hrest⟩, hu⟩
        cases u with
        | nil => rfl
        | cons d v =>
          cases hrest
          exact absurd (hu c (.head _)) hc

/-- The search lists the matches of the language, all of them and no other. -/
theorem mem_results_iff {r : Regex} {before after u : List Char} {gs : Captures} :
    (u, gs) ∈ results word r before after ↔
      ∃ rest, after = u ++ rest ∧ Matches word r before u rest gs := by
  induction r generalizing before after u gs with
  | empty =>
    simp only [results, List.mem_singleton, Prod.mk.injEq]
    constructor
    · rintro ⟨rfl, rfl⟩
      exact ⟨after, rfl, .empty before after⟩
    · rintro ⟨rest, rfl, h⟩
      cases h
      exact ⟨rfl, rfl⟩
  | one p =>
    cases after with
    | nil =>
      constructor
      · intro h
        cases h
      · rintro ⟨rest, hrest, h⟩
        cases h
        cases hrest
    | cons c cs =>
      rw [results]
      constructor
      · intro h
        split at h
        · next hc =>
          cases List.mem_singleton.mp h
          exact ⟨cs, rfl, .one before cs hc⟩
        · cases h
      · rintro ⟨rest, hrest, h⟩
        cases h with
        | one _ _ hc =>
          cases hrest
          rw [if_pos hc]
          exact .head _
  | many p =>
    simp only [results, List.mem_map, mem_runs, Prod.mk.injEq]
    constructor
    · rintro ⟨v, ⟨⟨rest, rfl⟩, hv⟩, rfl, rfl⟩
      exact ⟨rest, rfl, .many before rest hv⟩
    · rintro ⟨rest, rfl, h⟩
      cases h with
      | many _ _ hu => exact ⟨u, ⟨⟨rest, rfl⟩, hu⟩, rfl, rfl⟩
  | boundary =>
    rw [results]
    constructor
    · intro h
      split at h
      · next hb =>
        cases List.mem_singleton.mp h
        exact ⟨after, rfl, .boundary hb⟩
      · cases h
    · rintro ⟨rest, rfl, h⟩
      cases h with
      | boundary hb =>
        rw [List.nil_append, if_pos hb]
        exact .head _
  | seq a b iha ihb =>
    simp only [results, List.mem_flatMap, List.mem_map, Prod.exists, Prod.mk.injEq]
    constructor
    · rintro ⟨x, ga, hx, y, gb, hy, rfl, rfl⟩
      obtain ⟨rest, rfl, ha⟩ := iha.mp hx
      rw [List.drop_left] at hy
      obtain ⟨rest', rfl, hb⟩ := ihb.mp hy
      exact ⟨rest', by simp, .seq ha hb⟩
    · rintro ⟨rest, rfl, h⟩
      cases h with
      | @seq _ _ _ x y _ ga gb ha hb =>
        refine ⟨x, ga, iha.mpr ⟨y ++ rest, by simp, ha⟩, y, gb, ihb.mpr ⟨rest, ?_, hb⟩, rfl, rfl⟩
        rw [List.append_assoc, List.drop_left]
  | alt a b iha ihb =>
    rw [results, List.mem_append, iha, ihb]
    constructor
    · rintro (⟨rest, rfl, h⟩ | ⟨rest, rfl, h⟩)
      · exact ⟨rest, rfl, .altl h⟩
      · exact ⟨rest, rfl, .altr h⟩
    · rintro ⟨rest, rfl, h⟩
      cases h with
      | altl h => exact .inl ⟨rest, rfl, h⟩
      | altr h => exact .inr ⟨rest, rfl, h⟩
  | group n r ih =>
    simp only [results, List.mem_map, Prod.exists, Prod.mk.injEq]
    constructor
    · rintro ⟨x, ga, hx, rfl, rfl⟩
      obtain ⟨rest, rfl, h⟩ := ih.mp hx
      exact ⟨rest, rfl, .group h⟩
    · rintro ⟨rest, rfl, h⟩
      cases h with
      | group h => exact ⟨u, _, ih.mpr ⟨rest, rfl, h⟩, rfl, rfl⟩

/-- A match has no group that the pattern does not have. -/
theorem groups_of_matches {r : Regex} {before u rest : List Char} {gs : Captures}
    (h : Matches word r before u rest gs) : ∀ g ∈ gs, g.1 ∈ r.groups := by
  induction h with
  | empty => simp
  | one => simp
  | many => simp
  | boundary => simp
  | seq _ _ iha ihb =>
    intro g hg
    rw [Regex.groups, List.mem_append]
    rcases List.mem_append.mp hg with hg | hg
    · exact .inl (iha g hg)
    · exact .inr (ihb g hg)
  | altl _ ih => exact fun g hg => List.mem_append_left _ (ih g hg)
  | altr _ ih => exact fun g hg => List.mem_append_right _ (ih g hg)
  | group _ ih =>
    intro g hg
    cases hg with
    | head => exact .head _
    | tail _ hg => exact .tail _ (ih g hg)

/-! ## The match that the search takes -/

theorem matches_of_first {r : Regex} {before after u : List Char} {gs : Captures}
    (h : first word r before after = some (u, gs)) :
    ∃ rest, after = u ++ rest ∧ Matches word r before u rest gs :=
  (mem_results_iff word).mp (List.mem_of_head? h)

theorem first_eq_none_iff {r : Regex} {before after : List Char} :
    first word r before after = none ↔
      ∀ u rest gs, after = u ++ rest → ¬Matches word r before u rest gs := by
  rw [first, List.head?_eq_none_iff, List.eq_nil_iff_forall_not_mem]
  constructor
  · intro h u rest gs hafter hm
    exact h (u, gs) ((mem_results_iff word).mpr ⟨rest, hafter, hm⟩)
  · rintro h ⟨u, gs⟩ hmem
    obtain ⟨rest, hafter, hm⟩ := (mem_results_iff word).mp hmem
    exact h u rest gs hafter hm

theorem first_group (n : Nat) (r : Regex) (before after : List Char) :
    first word (.group n r) before after =
      (first word r before after).map fun (u, gs) => (u, (n, ⟨byte_len before, u⟩) :: gs) := by
  rw [first, results, List.head?_map]
  rfl

theorem first_alt (a b : Regex) (before after : List Char) :
    first word (.alt a b) before after =
      (first word a before after).or (first word b before after) := by
  rw [first, results, List.head?_append]
  rfl

theorem head?_runs (p : Char → Bool) (cs : List Char) :
    (runs p cs).head? = some (cs.takeWhile p) := by
  induction cs with
  | nil => rfl
  | cons c cs ih =>
    rw [runs, List.takeWhile_cons]
    split
    · rw [List.head?_append, List.head?_map, ih]
      rfl
    · rfl

/-- A greedy repetition takes all it can. -/
theorem first_many (p : Char → Bool) (before after : List Char) :
    first word (.many p) before after = some (after.takeWhile p, []) := by
  rw [first, results, List.head?_map, head?_runs]
  rfl

/-- The first match of a sequence ends with the first match of its last part. -/
theorem first_seq {a b : Regex} {before after u : List Char} {gs : Captures}
    (h : first word (.seq a b) before after = some (u, gs)) :
    ∃ x ga rest v gb, after = x ++ rest ∧ Matches word a before x rest ga ∧
      first word b (before ++ x) rest = some (v, gb) ∧ u = x ++ v ∧ gs = ga ++ gb := by
  rw [first, results, List.head?_flatMap] at h
  obtain ⟨⟨x, ga⟩, hmem, hhead⟩ := List.exists_of_findSome?_eq_some h
  obtain ⟨rest, rfl, ha⟩ := (mem_results_iff word).mp hmem
  rw [List.head?_map, List.drop_left] at hhead
  obtain ⟨⟨v, gb⟩, hb, hu⟩ := Option.map_eq_some_iff.mp hhead
  cases hu
  exact ⟨x, ga, rest, v, gb, rfl, ha, hb, rfl, rfl⟩

theorem first_some_of {p : Char → Bool} {before after v : List Char} {gs : Captures}
    (h : first word (.some_of p) before after = some (v, gs)) : v = after.takeWhile p := by
  obtain ⟨x, ga, rest, w, gb, rfl, hone, hmany, rfl, _⟩ := first_seq word h
  cases hone with
  | one _ _ hc =>
    rw [first_many] at hmany
    cases hmany
    simp [hc]

theorem get_append {n : Nat} {gs hs : Captures} (h : ∀ g ∈ gs, g.1 ≠ n) :
    Captures.get (gs ++ hs) n = Captures.get hs n := by
  unfold Captures.get
  rw [List.find?_append, List.find?_eq_none.mpr (by simpa using h), Option.none_or]

/-- The match that the search takes between `before` and `rest` of a line. -/
structure Found (r : Regex) (line before u rest : List Char) (c : Captures) : Prop where
  split : line = before ++ (u ++ rest)
  found : first word (.group 0 r) before (u ++ rest) = some (u, c)

/-- A pattern whose last part is a group. The match has the group, and the
group has the end of the match, as the search for the last part finds it. -/
theorem Found.last_group {a b : Regex} {n : Nat} {line before u rest : List Char} {c : Captures}
    (h : Found word (.seq a (.group n b)) line before u rest c) (hn : n ≠ 0) (ha : n ∉ a.groups) :
    ∃ x v ga gb, u = x ++ v ∧ Matches word a before x (v ++ rest) ga ∧
      first word b (before ++ x) (v ++ rest) = some (v, gb) ∧
      c.get n = some ⟨byte_len (before ++ x), v⟩ := by
  have hfound := h.found
  rw [first_group] at hfound
  obtain ⟨⟨_, gs⟩, hseq, hu⟩ := Option.map_eq_some_iff.mp hfound
  cases hu
  obtain ⟨x, ga, rest', w, gw, hafter, hx, hw, rfl, rfl⟩ := first_seq word hseq
  rw [first_group] at hw
  obtain ⟨⟨_, gb⟩, hb, hv⟩ := Option.map_eq_some_iff.mp hw
  cases hv
  rw [List.append_assoc, List.append_cancel_left_eq] at hafter
  subst hafter
  refine ⟨x, w, ga, gb, rfl, hx, hb, ?_⟩
  rw [← List.cons_append, get_append]
  · simp [Captures.get]
  · intro g hg
    cases hg with
    | head => exact hn.symm
    | tail _ hg =>
      rintro rfl
      exact ha (groups_of_matches word hx g hg)

/-! ## The search along a text -/

/-- The characters of a match are passed over. -/
theorem captures_from_length (r : Regex) (before w rest : List Char) :
    captures_from word r w.length before (w ++ rest) =
      captures_from word r 0 (before ++ w) rest := by
  induction w generalizing before with
  | nil => simp
  | cons c w ih =>
    rw [List.length_cons, List.cons_append, captures_from, ih]
    simp

/-- So are the places where no match starts. -/
theorem captures_from_none {r : Regex} {before w rest : List Char}
    (h : ∀ p c s u t gs, w = p ++ c :: s → c :: s ++ rest = u ++ t →
      ¬Matches word r (before ++ p) u t gs) :
    captures_from word r 0 before (w ++ rest) = captures_from word r 0 (before ++ w) rest := by
  induction w generalizing before with
  | nil => simp
  | cons c w ih =>
    have hnone : first word r before (c :: w ++ rest) = none := by
      rw [first_eq_none_iff]
      intro u t gs hu
      have := h [] c w u t gs rfl hu
      simpa using this
    rw [List.cons_append, captures_from, first_group, ← List.cons_append, hnone, Option.map_none]
    rw [ih, List.append_assoc, List.singleton_append]
    intro p d s u t gs hw hu
    have := h (c :: p) d s u t gs (by rw [hw, List.cons_append]) hu
    simpa using this

theorem captures_iter_eq_nil {r : Regex} {line : List Char}
    (h : ∀ a u t gs, line = a ++ (u ++ t) → ¬Matches word r a u t gs) :
    captures_iter word r line = [] := by
  rw [captures_iter, ← List.append_nil line, captures_from_none]
  · rfl
  · intro p c s u t gs hline hu
    rw [List.append_nil] at hu
    exact h p u t gs (by rw [hline, hu])

/-- Where a match starts, it is the next one. -/
theorem captures_from_some {r : Regex} {before u rest : List Char} {gs : Captures} (hu : u ≠ [])
    (h : first word r before (u ++ rest) = some (u, gs)) :
    captures_from word r 0 before (u ++ rest) =
      ((0, ⟨byte_len before, u⟩) :: gs) :: captures_from word r 0 (before ++ u) rest := by
  cases u with
  | nil => exact absurd rfl hu
  | cons c u =>
    rw [List.cons_append, captures_from, first_group, ← List.cons_append, h, Option.map_some]
    simp only [List.length_cons, Nat.add_sub_cancel]
    rw [captures_from_length, List.append_assoc, List.singleton_append]

theorem found_of_mem_captures_from {r : Regex} {line before after : List Char} {skip : Nat}
    {c : Captures} (hline : line = before ++ after)
    (hc : c ∈ captures_from word r skip before after) :
    ∃ b u rest, Found word r line b u rest c := by
  induction after generalizing before skip with
  | nil => cases skip <;> cases hc
  | cons d after ih =>
    have hline' : line = (before ++ [d]) ++ after := by simp [hline]
    cases skip with
    | succ n => exact ih hline' hc
    | zero =>
      rw [captures_from] at hc
      split at hc
      · exact ih hline' hc
      · next u groups hfirst =>
        cases hc with
        | head =>
          obtain ⟨rest, hafter, _⟩ := matches_of_first word hfirst
          rw [hafter] at hfirst hline
          exact ⟨before, u, rest, hline, hfirst⟩
        | tail _ hc => exact ih hline' hc

theorem found_of_mem_captures {r : Regex} {line : List Char} {c : Captures}
    (hc : c ∈ captures_iter word r line) : ∃ b u rest, Found word r line b u rest c :=
  found_of_mem_captures_from word (List.nil_append line).symm hc

/-- The matches of a line follow each other. So the parts that `pick` takes
from them do, one part from each match. -/
theorem captures_masks_from {r : Regex} {line : List Char} (pick : Captures → Option (Nat × Nat))
    (mark : List Char) {before after w rest : List Char} (hline : line = before ++ after)
    (hafter : after = w ++ rest)
    (hpick : ∀ b u t c, c ∈ captures_from word r w.length before after → Found word r line b u t c →
      ∃ x v y, u = x ++ (v ++ y) ∧
        pick c = some (byte_len (b ++ x), byte_len (b ++ x) + byte_len v)) :
    ∃ ranges out, (captures_from word r w.length before after).mapM pick = some ranges ∧
      Masks mark (byte_len (before ++ w)) rest ranges out := by
  induction after generalizing before w rest with
  | nil =>
    obtain ⟨rfl, rfl⟩ := List.append_eq_nil_iff.mp hafter.symm
    exact ⟨[], [], rfl, .done _ []⟩
  | cons d after ih =>
    have hline' : line = (before ++ [d]) ++ after := by simp [hline]
    cases w with
    | cons e w =>
      cases hafter
      obtain ⟨ranges, out, hranges, hmasks⟩ := ih hline' rfl hpick
      rw [List.append_assoc, List.singleton_append] at hmasks
      exact ⟨ranges, out, hranges, hmasks⟩
    | nil =>
      cases hafter
      rw [List.append_nil]
      rw [List.length_nil, captures_from] at hpick ⊢
      split at hpick
      · -- No match starts here.
        next hnone =>
        obtain ⟨ranges, out, hranges, hmasks⟩ := @ih (before ++ [d]) [] after hline' rfl hpick
        rw [List.append_nil, byte_len_append] at hmasks
        exact ⟨ranges, [d] ++ out, hranges, hmasks.shift [d]⟩
      · -- A match starts here. Its part comes first.
        next u groups hfirst =>
        obtain ⟨t, ht, _⟩ := matches_of_first word hfirst
        rw [ht] at hfirst hline
        obtain ⟨x, v, y, hu, hrange⟩ := hpick before u t groups (.head _) ⟨hline, hfirst⟩
        have hlater : ∃ ranges out,
            (captures_from word r (u.length - 1) (before ++ [d]) after).mapM pick = some ranges ∧
              Masks mark (byte_len (before ++ u)) t ranges out := by
          cases u with
          | nil =>
            rw [List.nil_append] at ht
            subst ht
            obtain ⟨ranges, out, hranges, hmasks⟩ := @ih (before ++ [d]) [] after hline' rfl
              fun b u t c hc => hpick b u t c (.tail _ hc)
            rw [List.append_nil, byte_len_append] at hmasks
            rw [List.append_nil]
            exact ⟨ranges, [d] ++ out, hranges, hmasks.shift [d]⟩
          | cons e u =>
            cases ht
            obtain ⟨ranges, out, hranges, hmasks⟩ := @ih (before ++ [d]) u t hline' rfl
              fun b u t c hc => hpick b u t c (.tail _ hc)
            rw [List.append_assoc, List.singleton_append] at hmasks
            exact ⟨ranges, out, hranges, hmasks⟩
        obtain ⟨ranges, out, hranges, hmasks⟩ := hlater
        refine ⟨(byte_len (before ++ x), byte_len (before ++ x) + byte_len v) :: ranges,
          x ++ mark ++ (y ++ out), by simp [List.mapM_cons, hrange, hranges], ?_⟩
        rw [ht, hu, List.append_assoc, List.append_assoc, byte_len_append before]
        apply Masks.next
        apply Masks.shift
        rw [hu] at hmasks
        simp only [byte_len_append, ← Nat.add_assoc] at hmasks ⊢
        exact hmasks

theorem captures_masks {r : Regex} {line : List Char} (pick : Captures → Option (Nat × Nat))
    (mark : List Char)
    (hpick : ∀ b u t c, c ∈ captures_iter word r line → Found word r line b u t c →
      ∃ x v y, u = x ++ (v ++ y) ∧
        pick c = some (byte_len (b ++ x), byte_len (b ++ x) + byte_len v)) :
    ∃ ranges out, (captures_iter word r line).mapM pick = some ranges ∧
      Masks mark 0 line ranges out :=
  @captures_masks_from word r line pick mark [] line [] line rfl rfl hpick

/-! ## Patterns of finitely many words -/

/-- The pattern matches the words of a list, in any case, and nothing else. -/
def Spells (r : Regex) (words : List (List Char)) : Prop :=
  ∀ before u rest gs, Matches word r before u rest gs ↔ u.map Regex.fold_case ∈ words ∧ gs = []

theorem spells_empty : Spells word .empty [[]] := by
  intro before u rest gs
  constructor
  · intro h
    cases h
    exact ⟨.head _, rfl⟩
  · rintro ⟨hu, rfl⟩
    rw [List.mem_singleton, List.map_eq_nil_iff] at hu
    subst hu
    exact .empty before rest

variable {word}

theorem Spells.seq {a b : Regex} {xs ys : List (List Char)} (ha : Spells word a xs)
    (hb : Spells word b ys) :
    Spells word (.seq a b) (xs.flatMap fun x => ys.map fun y => x ++ y) := by
  intro before u rest gs
  simp only [List.mem_flatMap, List.mem_map]
  constructor
  · intro h
    cases h with
    | @seq _ _ _ u v _ _ _ hma hmb =>
      obtain ⟨hu, rfl⟩ := (ha _ _ _ _).mp hma
      obtain ⟨hv, rfl⟩ := (hb _ _ _ _).mp hmb
      exact ⟨⟨_, hu, _, hv, by rw [List.map_append]⟩, rfl⟩
  · rintro ⟨⟨x, hx, y, hy, hu⟩, rfl⟩
    obtain ⟨u, v, rfl, rfl, rfl⟩ := List.map_eq_append_iff.mp hu.symm
    exact .seq_plain word ((ha _ _ _ _).mpr ⟨hx, rfl⟩) ((hb _ _ _ _).mpr ⟨hy, rfl⟩)

theorem Spells.alt {a b : Regex} {xs ys : List (List Char)} (ha : Spells word a xs)
    (hb : Spells word b ys) : Spells word (.alt a b) (xs ++ ys) := by
  intro before u rest gs
  rw [List.mem_append, or_and_right, ← ha before u rest gs, ← hb before u rest gs]
  constructor
  · intro h
    cases h with
    | altl h => exact .inl h
    | altr h => exact .inr h
  · rintro (h | h)
    · exact .altl h
    · exact .altr h

theorem Spells.opt {r : Regex} {xs : List (List Char)} (h : Spells word r xs) :
    Spells word (.opt r) (xs ++ [[]]) :=
  h.alt (spells_empty word)

theorem Spells.any_of {r : Regex} {rs : List Regex} {xs : List (List Char)}
    {yss : List (List (List Char))} (h : Spells word r xs)
    (hs : List.Forall₂ (Spells word) rs yss) :
    Spells word (.any_of r rs) (xs ++ yss.flatten) := by
  induction hs generalizing r xs with
  | nil => rwa [List.flatten_nil, List.append_nil]
  | cons hr _ ih =>
    rw [List.flatten_cons, ← List.append_assoc]
    exact ih (h.alt hr)

theorem spells_one {p : Char → Bool} (l : List Char) (h : ∀ c, p c = true ↔ Regex.fold_case c ∈ l) :
    Spells word (.one p) (l.map fun c => [c]) := by
  intro before u rest gs
  constructor
  · intro hm
    cases hm with
    | @one _ c _ _ hc => exact ⟨List.mem_map.mpr ⟨_, (h c).mp hc, rfl⟩, rfl⟩
  · rintro ⟨hu, rfl⟩
    obtain ⟨d, hd, hu⟩ := List.mem_map.mp hu
    obtain ⟨c, rfl, rfl⟩ := List.map_eq_singleton_iff.mp hu.symm
    exact .one before rest ((h c).mpr hd)

theorem spells_literal (s : String) : Spells word (.literal s) [s.toList] := by
  unfold Regex.literal
  generalize s.toList = cs
  induction cs with
  | nil => exact spells_empty word
  | cons c cs ih =>
    have hc : Spells word (.one fun c' => Regex.fold_case c' == c) [[c]] := spells_one [c] (by simp)
    exact hc.seq ih

theorem Regex.fold_case_ascii {c d : Char} (h : c.toLower = d) (hd : d.toNat < 128) :
    Regex.fold_case c = d := by
  unfold Regex.fold_case
  split_ifs with h1 h2
  · rw [h1] at h
    subst h
    exact absurd hd (by decide)
  · rw [h2] at h
    subst h
    exact absurd hd (by decide)
  · exact h

/-- Only `s` and `k` have a letter outside ASCII that folds to them. -/
theorem Regex.toLower_of_fold_case {c d : Char} (h : Regex.fold_case c = d) (hs : d ≠ 's')
    (hk : d ≠ 'k') : c.toLower = d := by
  unfold Regex.fold_case at h
  split_ifs at h
  · exact absurd h.symm hs
  · exact absurd h.symm hk
  · exact h

end Search

end regex
