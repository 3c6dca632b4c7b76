-- What a fuzzy query finds, and in which order. The scan takes the first place
-- for each character of the query, and that finds every subsequence. The two
-- entry points rank the candidates, one by index and one by name.
import Kaptein.Fuzzy

open rust_str rust_slice

namespace kaptein_viewmodel.fuzzy

/-! ## The two orders -/

/-- By the score, and candidates with one score by their index. -/
def by_index : FuzzyRanked → FuzzyRanked → Ordering :=
  desc_then_asc FuzzyRanked.score FuzzyRanked.index

instance : Std.TransCmp by_index :=
  inferInstanceAs (Std.TransCmp (desc_then_asc FuzzyRanked.score FuzzyRanked.index))

theorem eq_of_by_index (a b : FuzzyRanked) (h : by_index a b = .eq) : a = b := by
  obtain ⟨hscore, hindex⟩ := desc_then_asc_eq h
  cases a
  cases b
  simp_all

/-- By the score, and candidates with one score by their name. -/
def by_name : FuzzyMatch → FuzzyMatch → Ordering :=
  desc_then_asc FuzzyMatch.score FuzzyMatch.candidate

instance : Std.TransCmp by_name :=
  inferInstanceAs (Std.TransCmp (desc_then_asc FuzzyMatch.score FuzzyMatch.candidate))

theorem eq_of_by_name (a b : FuzzyMatch) (h : by_name a b = .eq) : a = b := by
  obtain ⟨hscore, hcandidate⟩ := desc_then_asc_eq h
  cases a
  cases b
  simp_all

/-- The match of a ranked index. -/
def named (candidates : List String) (r : FuzzyRanked) : FuzzyMatch :=
  { candidate := (candidates[r.index]?).getD "", score := r.score }

theorem named_of_get {candidates : List String} {r : FuzzyRanked} {c : String}
    (h : candidates[r.index]? = some c) :
    named candidates r = ⟨c, r.score⟩ := by
  simp [named, h]

section

variable [UppercaseTable]

/-! ## The scan -/

/-- The scan passes the rest of the query exactly where it is a subsequence of the rest of
the candidate. -/
theorem scan_qi_iff (query_chars : List Char) (s : Scan) (char_index : Nat) (cs : List Char)
    (hqi : s.qi ≤ query_chars.length) :
    (scan query_chars s char_index cs).qi = query_chars.length ↔
      (query_chars.drop s.qi).Sublist (cs.map Char.toLower) := by
  induction cs generalizing s char_index with
  | nil =>
    simp only [scan, List.map_nil, List.sublist_nil, List.drop_eq_nil_iff]
    omega
  | cons c cs ih =>
    unfold scan
    rw [List.map_cons]
    by_cases hmatch : query_chars[s.qi]? = some c.toLower
    · obtain ⟨hlt, hc⟩ := List.getElem?_eq_some_iff.mp hmatch
      have hqi' : (s.next query_chars char_index c).qi = s.qi + 1 := by
        simp [Scan.next, hmatch]
      rw [ih _ _ (by omega), hqi', List.drop_eq_getElem_cons hlt, hc, List.cons_sublist_cons]
    · have hqi' : (s.next query_chars char_index c).qi = s.qi := by
        simp [Scan.next, hmatch]
      rw [ih _ _ (by omega), hqi']
      constructor
      · intro h
        exact h.cons _
      · intro h
        rcases List.sublist_cons_iff.mp h with h | ⟨rest, hrest, -⟩
        · exact h
        · rw [← List.head?_drop, hrest] at hmatch
          exact absurd rfl hmatch

theorem fuzzy_score_isSome_iff (candidate query : String) :
    (fuzzy_score candidate query).isSome = true ↔
      (query.toList.map Char.toLower).Sublist (candidate.toList.map Char.toLower) := by
  unfold fuzzy_score
  dsimp only
  split
  · rename_i hempty
    simp [hempty]
  · have hscan := scan_qi_iff (query.toList.map Char.toLower) ⟨0, 0, none, none⟩ 0
      candidate.toList (Nat.zero_le _)
    rw [List.drop_zero] at hscan
    rw [← hscan]
    split <;> simp_all

omit [UppercaseTable] in
/-- A query in lower case is compared as it is. -/
theorem lower_chars (query : String) :
    (to_ascii_lowercase query).toList.map Char.toLower = (to_ascii_lowercase query).toList := by
  have htwice : Char.toLower ∘ Char.toLower = Char.toLower := funext toLower_toLower
  unfold to_ascii_lowercase
  rw [String.toList_ofList, List.map_map, htwice]

/-! ## The points -/

theorem match_points_bounds (prev_match : Option Nat) (prev_char : Option Char) (char_index : Nat) :
    0 ≤ match_points prev_match prev_char char_index ∧
      match_points prev_match prev_char char_index ≤ 5 := by
  unfold match_points
  split <;> split_ifs <;> omega

/-- Each character of the candidate gives 5 points at most. -/
theorem scan_score_bounds (query_chars : List Char) (s : Scan) (char_index : Nat) (cs : List Char) :
    s.score ≤ (scan query_chars s char_index cs).score ∧
      (scan query_chars s char_index cs).score ≤ s.score + 5 * cs.length := by
  induction cs generalizing s char_index with
  | nil => simp [scan]
  | cons c cs ih =>
    have hrest := ih (s.next query_chars char_index c) (char_index + 1)
    have hpoints := match_points_bounds s.prev_match s.prev_char char_index
    have hnext : s.score ≤ (s.next query_chars char_index c).score ∧
        (s.next query_chars char_index c).score ≤ s.score + 5 := by
      unfold Scan.next
      split <;> dsimp only <;> omega
    unfold scan
    rw [List.length_cons]
    omega

/-- No score overflows an `i32` on a candidate of fewer than `2^31 / 5` characters. -/
theorem fuzzy_score_fits {candidate query : String} {score : Int}
    (h : fuzzy_score candidate query = some score) :
    0 ≤ score ∧ score ≤ 5 * candidate.toList.length := by
  unfold fuzzy_score at h
  dsimp only at h
  split at h
  · rw [Option.some.injEq] at h
    omega
  · have hbounds := scan_score_bounds (query.toList.map Char.toLower) ⟨0, 0, none, none⟩ 0
      candidate.toList
    split at h
    · rw [Option.some.injEq] at h
      dsimp only at hbounds
      omega
    · cases h

/-! ## The ranked indices -/

/-- The query as both entry points compare it. -/
def folded (query : String) : String := to_ascii_lowercase (trim query)

/-- The matches in the order of the candidates. -/
def found (candidates : List String) (query : String) : List FuzzyRanked :=
  candidates.zipIdx.filterMap fun p =>
    (fuzzy_score p.1 (folded query)).map fun score => { index := p.2, score }

theorem mem_found {candidates : List String} {query : String} {r : FuzzyRanked} :
    r ∈ found candidates query ↔
      ∃ c, candidates[r.index]? = some c ∧ fuzzy_score c (folded query) = some r.score := by
  unfold found
  rw [List.mem_filterMap]
  constructor
  · rintro ⟨⟨c, i⟩, hmem, hscore⟩
    rw [Option.map_eq_some_iff] at hscore
    obtain ⟨score, hscore, rfl⟩ := hscore
    exact ⟨c, List.mk_mem_zipIdx_iff_getElem?.mp hmem, hscore⟩
  · rintro ⟨c, hget, hscore⟩
    exact ⟨(c, r.index), List.mk_mem_zipIdx_iff_getElem?.mpr hget, by rw [hscore]; rfl⟩

theorem found_increasing (candidates : List String) (query : String) :
    (found candidates query).Pairwise fun a b => a.index < b.index := by
  have hplaces : candidates.zipIdx.Pairwise fun p q => p.2 < q.2 := by
    rw [← List.pairwise_map (f := Prod.snd) (R := (· < ·)), List.zipIdx_map_snd]
    exact List.pairwise_lt_range'
  apply List.Pairwise.filterMap _ _ hplaces
  intro p q hpq a ha b hb
  obtain ⟨_, -, rfl⟩ := Option.map_eq_some_iff.mp ha
  obtain ⟨_, -, rfl⟩ := Option.map_eq_some_iff.mp hb
  exact hpq

theorem fuzzy_score_empty {query : String} (h : folded query = "") (c : String) :
    fuzzy_score c (folded query) = some 0 := by
  rw [h]
  rfl

variable (std : StableSort)

theorem fuzzy_rank_indices_eq (candidates : List String) (query : String) :
    fuzzy_rank_indices std candidates query = std.sort_by by_index (found candidates query) :=
  rfl

/-- The result names each candidate that has the query as a subsequence once, with its
score, the best ones first and among these the first ones. -/
structure Ranked (candidates : List String) (query : String) (ranked : List FuzzyRanked) :
    Prop where
  matched : ∀ i, i ∈ ranked.map FuzzyRanked.index ↔ ∃ c, candidates[i]? = some c ∧
    (to_ascii_lowercase (trim query)).toList.Sublist (to_ascii_lowercase c).toList
  once : (ranked.map FuzzyRanked.index).Nodup
  scored : ∀ r ∈ ranked, ∃ c, candidates[r.index]? = some c ∧
    fuzzy_score c (to_ascii_lowercase (trim query)) = some r.score
  ordered : ranked.Pairwise fun a b =>
    b.score < a.score ∨ a.score = b.score ∧ a.index < b.index
  blank : trim query = "" → ranked.map FuzzyRanked.index = List.range candidates.length

theorem mem_fuzzy_rank_indices {candidates : List String} {query : String} {r : FuzzyRanked} :
    r ∈ fuzzy_rank_indices std candidates query ↔ ∃ c, candidates[r.index]? = some c ∧
      fuzzy_score c (folded query) = some r.score := by
  rw [fuzzy_rank_indices_eq, (std.perm _ _).mem_iff, mem_found]

/-- One index has one place in the result, so ties are strict. -/
theorem fuzzy_rank_indices_ordered (candidates : List String) (query : String) :
    (fuzzy_rank_indices std candidates query).Pairwise fun a b =>
      b.score < a.score ∨ a.score = b.score ∧ a.index < b.index := by
  have hsorted := std.sorted by_index (found candidates query)
  have hdistinct : (fuzzy_rank_indices std candidates query).Pairwise fun a b =>
      a.index ≠ b.index := by
    have hfound := (found_increasing candidates query).imp fun hlt => Nat.ne_of_lt hlt
    exact (std.perm by_index _).symm.pairwise hfound Ne.symm
  rw [← fuzzy_rank_indices_eq] at hsorted
  apply (hsorted.and hdistinct).imp
  rintro a b ⟨hle, hne⟩
  rcases (desc_then_asc_isLE _ _ a b).mp hle with hlt | ⟨heq, hindex⟩
  · exact Or.inl hlt
  · have hindex := Nat.isLE_compare.mp hindex
    exact Or.inr ⟨heq, by omega⟩

theorem fuzzy_rank_indices_of_sorted {candidates : List String} {query : String}
    (h : (found candidates query).Pairwise fun a b => b.score ≤ a.score) :
    fuzzy_rank_indices std candidates query = found candidates query := by
  rw [fuzzy_rank_indices_eq]
  apply std.eq_of_sorted eq_of_by_index (List.Perm.refl _)
  apply (h.and (found_increasing candidates query)).imp
  rintro a b ⟨hle, hlt⟩
  rw [by_index, desc_then_asc_isLE, Nat.isLE_compare]
  omega

theorem found_blank {candidates : List String} {query : String} (h : trim query = "") :
    found candidates query = candidates.zipIdx.map fun p => { index := p.2, score := 0 } := by
  have hfolded : folded query = "" := by
    rw [folded, h]
    rfl
  unfold found
  rw [← List.filterMap_eq_map]
  apply List.filterMap_congr
  intro p _
  rw [fuzzy_score_empty hfolded]
  rfl

theorem fuzzy_rank_indices_blank {candidates : List String} {query : String} (h : trim query = "") :
    fuzzy_rank_indices std candidates query =
      candidates.zipIdx.map fun p => { index := p.2, score := 0 } := by
  rw [fuzzy_rank_indices_of_sorted, found_blank h]
  rw [found_blank h, List.pairwise_map]
  exact List.pairwise_of_forall fun _ _ => Int.le_refl _

theorem fuzzy_rank_indices_ranked (candidates : List String) (query : String) :
    Ranked candidates query (fuzzy_rank_indices std candidates query) := by
  have hordered := fuzzy_rank_indices_ordered std candidates query
  constructor
  · intro i
    rw [List.mem_map]
    constructor
    · rintro ⟨r, hr, rfl⟩
      obtain ⟨c, hget, hscore⟩ := (mem_fuzzy_rank_indices std).mp hr
      have hsome := Option.isSome_of_eq_some hscore
      rw [fuzzy_score_isSome_iff, folded, lower_chars] at hsome
      exact ⟨c, hget, by simpa [to_ascii_lowercase] using hsome⟩
    · rintro ⟨c, hget, hsub⟩
      have hsome : (fuzzy_score c (folded query)).isSome = true := by
        rw [fuzzy_score_isSome_iff, folded, lower_chars]
        simpa [to_ascii_lowercase] using hsub
      obtain ⟨score, hscore⟩ := Option.isSome_iff_exists.mp hsome
      exact ⟨⟨i, score⟩, (mem_fuzzy_rank_indices std).mpr ⟨c, hget, hscore⟩, rfl⟩
  · rw [List.Nodup, List.pairwise_map]
    exact (std.perm by_index _).symm.pairwise
      ((found_increasing candidates query).imp fun hlt => Nat.ne_of_lt hlt) Ne.symm
  · intro r hr
    exact (mem_fuzzy_rank_indices std).mp hr
  · exact hordered
  · intro hblank
    rw [fuzzy_rank_indices_blank std hblank, List.map_map, List.range_eq_range']
    exact List.zipIdx_map_snd 0 candidates

/-! ## The two entry points -/

/-- The ranked indices, read back, are the matches of `fuzzy_jump` in their order. -/
def Agree (candidates : List String) (query : String) : Prop :=
  ((fuzzy_rank_indices std candidates query).map fun r =>
      candidates[r.index]?.map fun candidate => (⟨candidate, r.score⟩ : FuzzyMatch)) =
    (fuzzy_jump std candidates query).map some

/-- Candidates that match with one score stand in the list in the order of their names. -/
def TiesByName (candidates : List String) (query : String) : Prop :=
  ∀ (i j : Nat) (a b : String) (score : Int), i < j →
    candidates[i]? = some a → candidates[j]? = some b →
    fuzzy_score a (to_ascii_lowercase (trim query)) = some score →
    fuzzy_score b (to_ascii_lowercase (trim query)) = some score → (compare a b).isLE

variable {candidates : List String} {query : String}

theorem agree_iff_named : Agree std candidates query ↔
    (fuzzy_rank_indices std candidates query).map (named candidates) =
      fuzzy_jump std candidates query := by
  have hread : ((fuzzy_rank_indices std candidates query).map fun r =>
        candidates[r.index]?.map fun candidate => (⟨candidate, r.score⟩ : FuzzyMatch)) =
      ((fuzzy_rank_indices std candidates query).map (named candidates)).map some := by
    rw [List.map_map]
    apply List.map_congr_left
    intro r hr
    obtain ⟨c, hget, -⟩ := (mem_fuzzy_rank_indices std).mp hr
    rw [Function.comp, named_of_get hget, hget]
    rfl
  unfold Agree
  rw [hread]
  exact List.map_inj_right fun _ _ h => Option.some.inj h

theorem found_named : (found candidates query).map (named candidates) =
    candidates.filterMap fun candidate =>
      (fuzzy_score candidate (folded query)).map fun score => { candidate, score } := by
  have hplaces : candidates = candidates.zipIdx.map Prod.fst := (List.zipIdx_map_fst 0 _).symm
  conv_rhs => rw [hplaces]
  unfold found
  rw [List.map_filterMap, List.filterMap_map]
  apply List.filterMap_congr
  rintro ⟨c, i⟩ hmem
  rw [List.mk_mem_zipIdx_iff_getElem?] at hmem
  rw [Function.comp, Option.map_map]
  apply Option.map_congr
  intro score _
  exact named_of_get hmem

omit [UppercaseTable] in
theorem folded_eq_empty : folded query = "" ↔ trim query = "" := by
  unfold folded to_ascii_lowercase
  rw [String.ofList_eq_empty_iff, List.map_eq_nil_iff, String.toList_eq_nil_iff]

theorem fuzzy_jump_eq (h : trim query ≠ "") : fuzzy_jump std candidates query =
    std.sort_by by_name ((found candidates query).map (named candidates)) := by
  have hfolded : to_ascii_lowercase (trim query) ≠ "" := fun hempty => h (folded_eq_empty.mp hempty)
  unfold fuzzy_jump
  dsimp only
  rw [if_neg hfolded, found_named]
  rfl

theorem agree_of_blank (h : trim query = "") : Agree std candidates query := by
  have hjump : fuzzy_jump std candidates query =
      candidates.map fun candidate => { candidate, score := 0 } := by
    unfold fuzzy_jump
    exact if_pos (folded_eq_empty.mpr h)
  have hplaces : candidates = candidates.zipIdx.map Prod.fst := (List.zipIdx_map_fst 0 _).symm
  rw [agree_iff_named, fuzzy_rank_indices_blank std h, hjump]
  conv_rhs => rw [hplaces]
  rw [List.map_map, List.map_map]
  apply List.map_congr_left
  rintro ⟨c, i⟩ hmem
  rw [List.mk_mem_zipIdx_iff_getElem?] at hmem
  exact named_of_get hmem

/-- Where ties stand by name, an order by index is an order by name. -/
theorem agree_of_ties_by_name (h : trim query ≠ "") (hties : TiesByName candidates query) :
    Agree std candidates query := by
  rw [agree_iff_named, fuzzy_jump_eq std h]
  symm
  apply std.eq_of_sorted eq_of_by_name ((std.perm by_index _).map _)
  rw [List.pairwise_map]
  apply (fuzzy_rank_indices_ordered std candidates query).imp_of_mem
  intro a b ha hb hab
  obtain ⟨c, hc, hascore⟩ := (mem_fuzzy_rank_indices std).mp ha
  obtain ⟨d, hd, hbscore⟩ := (mem_fuzzy_rank_indices std).mp hb
  rw [named_of_get hc, named_of_get hd, by_name, desc_then_asc_isLE]
  rcases hab with hlt | ⟨heq, hlt⟩
  · exact Or.inl hlt
  · rw [← heq] at hbscore
    have hle := hties _ _ _ _ _ hlt hc hd hascore hbscore
    exact Or.inr ⟨heq, hle⟩

/-- Two tied candidates come out by index, so `fuzzy_jump` has them by name too. -/
theorem ties_by_name_of_agree (h : trim query ≠ "") (hagree : Agree std candidates query) :
    TiesByName candidates query := by
  intro i j a b score hij ha hb hascore hbscore
  have hordered := fuzzy_rank_indices_ordered std candidates query
  have hi : ⟨i, score⟩ ∈ fuzzy_rank_indices std candidates query :=
    (mem_fuzzy_rank_indices std).mpr ⟨a, ha, hascore⟩
  have hj : ⟨j, score⟩ ∈ fuzzy_rank_indices std candidates query :=
    (mem_fuzzy_rank_indices std).mpr ⟨b, hb, hbscore⟩
  have hne : (⟨i, score⟩ : FuzzyRanked) ≠ ⟨j, score⟩ := by
    simp only [ne_eq, FuzzyRanked.mk.injEq, and_true]
    omega
  rw [agree_iff_named, fuzzy_jump_eq std h] at hagree
  have hsorted := std.sorted by_name ((found candidates query).map (named candidates))
  rw [← hagree, List.pairwise_map] at hsorted
  rcases pair_sublist_or hne hi hj with hpair | hpair
  · have hle := (List.pairwise_pair.mp (hsorted.sublist hpair))
    rw [named_of_get ha, named_of_get hb, by_name, desc_then_asc_isLE] at hle
    rcases hle with hlt | ⟨-, hle⟩
    · exact absurd hlt (Int.lt_irrefl _)
    · exact hle
  · have hback := List.pairwise_pair.mp (hordered.sublist hpair)
    dsimp only at hback
    omega

/-- The two entry points agree exactly on a blank query, and where ties stand by name. -/
theorem agree_iff (candidates : List String) (query : String) :
    Agree std candidates query ↔ trim query = "" ∨ TiesByName candidates query := by
  by_cases hblank : trim query = ""
  · simp [hblank, agree_of_blank std hblank]
  · simp only [hblank, false_or]
    exact ⟨ties_by_name_of_agree std hblank, agree_of_ties_by_name std hblank⟩

end

/-- Two pods that match alike, the second name first: only `fuzzy_jump` turns them. -/
theorem tied_names_do_not_agree :
    ¬∀ candidates query, @Agree ⟨Char.isUpper⟩ mergeSort candidates query := by
  intro h
  have hblank : trim "pod" ≠ "" := by decide
  have hties := @ties_by_name_of_agree ⟨Char.isUpper⟩ mergeSort _ _ hblank
    (h ["pod-b", "pod-a"] "pod")
  have hle := hties 0 1 "pod-b" "pod-a" 13 (by decide) rfl rfl (by decide) (by decide)
  revert hle
  decide

end kaptein_viewmodel.fuzzy
