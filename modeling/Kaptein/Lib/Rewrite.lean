-- The rewriting of a text along the matches of a pattern: a head that stays,
-- and a value behind it that is replaced. What one match does depends on the
-- text around it only, so a text can be rewritten part by part.
import Kaptein.Lib.Regex

open utf8

namespace regex

/-- No class of the pattern has the character. -/
def Regex.avoids (d : Char) : Regex → Bool
  | .empty => true
  | .one p => !p d
  | .many p => !p d
  | .boundary => true
  | .seq a b => a.avoids d && b.avoids d
  | .alt a b => a.avoids d && b.avoids d
  | .group _ r => r.avoids d

section Texts

variable (word : Char → Bool)

/-! ## The matches as texts -/

/-- The matches at one place, without their groups. -/
def texts (r : Regex) (before after : List Char) : List (List Char) :=
  (results word r before after).map Prod.fst

/-- The matches of a head and a value behind it. -/
def splits (a b : Regex) (before after : List Char) : List (List Char × List Char) :=
  (texts word a before after).flatMap fun x =>
    (texts word b (before ++ x) (after.drop x.length)).map fun v => (x, v)

theorem texts_seq (a b : Regex) (before after : List Char) :
    texts word (.seq a b) before after =
      (texts word a before after).flatMap fun u =>
        (texts word b (before ++ u) (after.drop u.length)).map fun v => u ++ v := by
  simp [texts, results, List.map_flatMap, List.flatMap_map, Function.comp_def]

theorem texts_alt (a b : Regex) (before after : List Char) :
    texts word (.alt a b) before after =
      texts word a before after ++ texts word b before after := by
  simp [texts, results]

theorem texts_group (n : Nat) (r : Regex) (before after : List Char) :
    texts word (.group n r) before after = texts word r before after := by
  simp [texts, results, Function.comp_def]

theorem texts_many (p : Char → Bool) (before after : List Char) :
    texts word (.many p) before after = runs p after := by
  simp [texts, results, Function.comp_def]

/-- Of the matches of `[..]+`, the longest one comes first. -/
theorem head?_texts_some_of (p : Char → Bool) (before after : List Char) :
    (texts word (.some_of p) before after).head? =
      if after.takeWhile p = [] then none else some (after.takeWhile p) := by
  rw [Regex.some_of, texts_seq]
  cases after with
  | nil => rfl
  | cons c cs =>
    by_cases hc : p c
    · have hone : texts word (.one p) before (c :: cs) = [[c]] := by simp [texts, results, hc]
      rw [hone, List.flatMap_singleton, texts_many, List.head?_map, List.length_singleton,
        List.drop_succ_cons, List.drop_zero, head?_runs, List.takeWhile_cons, if_pos hc]
      simp
    · have hone : texts word (.one p) before (c :: cs) = [] := by simp [texts, results, hc]
      rw [hone, List.takeWhile_cons, if_neg hc]
      rfl

theorem mem_texts_iff {r : Regex} {before after u : List Char} :
    u ∈ texts word r before after ↔
      ∃ rest gs, after = u ++ rest ∧ Matches word r before u rest gs := by
  simp only [texts, List.mem_map, Prod.exists, mem_results_iff word]
  constructor
  · rintro ⟨v, gs, ⟨rest, hafter, hm⟩, rfl⟩
    exact ⟨rest, gs, hafter, hm⟩
  · rintro ⟨rest, gs, hafter, hm⟩
    exact ⟨u, gs, ⟨rest, hafter, hm⟩, rfl⟩

theorem mem_splits_iff {a b : Regex} {before after x v : List Char} :
    (x, v) ∈ splits word a b before after ↔
      x ∈ texts word a before after ∧ v ∈ texts word b (before ++ x) (after.drop x.length) := by
  simp only [splits, List.mem_flatMap, List.mem_map, Prod.mk.injEq]
  constructor
  · rintro ⟨y, hy, w, hw, rfl, rfl⟩
    exact ⟨hy, hw⟩
  · rintro ⟨hx, hv⟩
    exact ⟨x, hx, v, hv, rfl, rfl⟩

theorem append_of_mem_splits {a b : Regex} {before after x v : List Char}
    (h : (x, v) ∈ splits word a b before after) : ∃ rest, after = x ++ (v ++ rest) := by
  obtain ⟨hx, hv⟩ := (mem_splits_iff word).mp h
  obtain ⟨rest, _, rfl, _⟩ := (mem_texts_iff word).mp hx
  rw [List.drop_left] at hv
  obtain ⟨rest', _, rfl, _⟩ := (mem_texts_iff word).mp hv
  exact ⟨rest', rfl⟩

/-- A character that no class has is in no match. -/
theorem not_mem_of_avoids {d : Char} {r : Regex} (hr : r.avoids d) {before u rest : List Char}
    {gs : Captures} (h : Matches word r before u rest gs) : d ∉ u := by
  induction h with
  | empty => simp
  | @one p c _ _ hc =>
    rw [List.mem_singleton]
    rintro rfl
    simp [Regex.avoids, hc] at hr
  | @many p u _ _ hu =>
    intro hd
    simp [Regex.avoids, hu d hd] at hr
  | boundary => simp
  | seq _ _ iha ihb =>
    obtain ⟨ha, hb⟩ := Bool.and_eq_true_iff.mp hr
    rw [List.mem_append, not_or]
    exact ⟨iha ha, ihb hb⟩
  | altl _ ih => exact ih (Bool.and_eq_true_iff.mp hr).1
  | altr _ ih => exact ih (Bool.and_eq_true_iff.mp hr).2
  | group _ ih => exact ih hr

/-! ## What a match depends on -/

/-- Of the text in front, only whether it ends in a word character counts. -/
def SameEnd (before before' : List Char) : Prop :=
  before.getLast?.any word = before'.getLast?.any word

variable {word}

theorem SameEnd.append {before before' : List Char} (h : SameEnd word before before')
    (u : List Char) : SameEnd word (before ++ u) (before' ++ u) := by
  rcases List.eq_nil_or_concat' u with rfl | ⟨l, c, rfl⟩
  · simpa using h
  · simp [SameEnd, ← List.append_assoc]

theorem SameEnd.texts_eq {before before' : List Char} (h : SameEnd word before before')
    (r : Regex) (after : List Char) :
    texts word r before after = texts word r before' after := by
  induction r generalizing before before' after with
  | empty => rfl
  | one p =>
    cases after with
    | nil => rfl
    | cons c after => rfl
  | many p => rw [texts_many, texts_many]
  | boundary =>
    have hsame : at_boundary word before after = at_boundary word before' after := by
      unfold at_boundary
      rw [h]
    rw [texts, texts, results, results, hsame]
  | seq a b iha ihb =>
    rw [texts_seq, texts_seq, iha h]
    congr 1
    funext u
    rw [ihb (h.append u)]
  | alt a b iha ihb => rw [texts_alt, texts_alt, iha h, ihb h]
  | group n r ih => rw [texts_group, texts_group, ih h]

theorem SameEnd.splits_eq {before before' : List Char} (h : SameEnd word before before')
    (a b : Regex) (after : List Char) :
    splits word a b before after = splits word a b before' after := by
  unfold splits
  rw [h.texts_eq]
  congr 1
  funext x
  rw [(h.append x).texts_eq]

theorem runs_stop {p : Char → Bool} {d : Char} (hd : p d = false) (s t : List Char) :
    runs p (s ++ d :: t) = runs p s := by
  induction s with
  | nil => simp [runs, hd]
  | cons c s ih => rw [List.cons_append, runs, runs, ih]

/-- A match does not look beyond a character that no class has. -/
theorem texts_stop {d : Char} (hword : word d = false) {r : Regex} (hr : r.avoids d)
    (before s t : List Char) :
    texts word r before (s ++ d :: t) = texts word r before s := by
  induction r generalizing before s with
  | empty => rfl
  | one p =>
    cases s with
    | nil =>
      have hd : p d = false := by simpa [Regex.avoids] using hr
      simp [texts, results, hd]
    | cons c s => rfl
  | many p =>
    rw [texts_many, texts_many, runs_stop (by simpa [Regex.avoids] using hr)]
  | boundary =>
    cases s with
    | nil => simp [texts, results, at_boundary, hword]
    | cons c s => rfl
  | seq a b iha ihb =>
    obtain ⟨ha, hb⟩ := Bool.and_eq_true_iff.mp hr
    rw [texts_seq, texts_seq, iha ha]
    apply List.flatMap_congr
    intro u hu
    obtain ⟨rest, _, rfl, _⟩ := (mem_texts_iff word).mp hu
    rw [List.append_assoc, List.drop_left, List.drop_left, ihb hb]
  | alt a b iha ihb =>
    obtain ⟨ha, hb⟩ := Bool.and_eq_true_iff.mp hr
    rw [texts_alt, texts_alt, iha ha, ihb hb]
  | group n r ih => rw [texts_group, texts_group, ih hr]

theorem splits_stop {d : Char} (hword : word d = false) {a b : Regex} (ha : a.avoids d)
    (hb : b.avoids d) (before s t : List Char) :
    splits word a b before (s ++ d :: t) = splits word a b before s := by
  unfold splits
  rw [texts_stop hword ha]
  apply List.flatMap_congr
  intro x hx
  obtain ⟨rest, _, rfl, _⟩ := (mem_texts_iff word).mp hx
  rw [List.append_assoc, List.drop_left, List.drop_left, texts_stop hword hb]

end Texts

/-! ## The rewriting -/

/-- The text is rewritten from left to right. Where the pattern matches, its
head stays and `cut` gives the text in the place of the value. -/
inductive Rewrites (word : Char → Bool) (a b : Regex) (cut : List Char → Option (List Char)) :
    List Char → List Char → List Char → Prop
  | done (before : List Char) : Rewrites word a b cut before [] []
  | skip {before t out : List Char} {c : Char} (h : splits word a b before (c :: t) = [])
      (later : Rewrites word a b cut (before ++ [c]) t out) :
      Rewrites word a b cut before (c :: t) (c :: out)
  | hit {before x v rest w out : List Char}
      (h : (splits word a b before (x ++ (v ++ rest))).head? = some (x, v)) (hx : x ≠ [])
      (hw : cut v = some w) (later : Rewrites word a b cut (before ++ (x ++ v)) rest out) :
      Rewrites word a b cut before (x ++ (v ++ rest)) (x ++ (w ++ out))

section Rewriting

variable {word : Char → Bool} {a b : Regex} {cut : List Char → Option (List Char)}

theorem Rewrites.same_end {before before' t out : List Char}
    (h : Rewrites word a b cut before t out) (hend : SameEnd word before before') :
    Rewrites word a b cut before' t out := by
  induction h generalizing before' with
  | done => exact .done before'
  | @skip before t out c hsplits _ ih =>
    rw [hend.splits_eq] at hsplits
    exact .skip hsplits (ih (hend.append [c]))
  | @hit before x v rest w out hsplits hx hw _ ih =>
    rw [hend.splits_eq] at hsplits
    exact .hit hsplits hx hw (ih (hend.append (x ++ v)))

/-- The first character stays. -/
theorem Rewrites.head?_eq {before t out : List Char} (h : Rewrites word a b cut before t out) :
    out.head? = t.head? := by
  cases h with
  | done => rfl
  | skip => rfl
  | @hit _ x _ _ _ _ _ hx =>
    cases x with
    | nil => exact absurd rfl hx
    | cons c x => rfl

theorem rewrites_nil_iff {before out : List Char} :
    Rewrites word a b cut before [] out ↔ out = [] := by
  constructor
  · intro h
    generalize ht : ([] : List Char) = t at h
    cases h with
    | done => rfl
    | skip => cases ht
    | hit _ hx => exact absurd (List.append_eq_nil_iff.mp ht.symm).1 hx
  · rintro rfl
    exact .done before

/-- A character where no match starts. -/
theorem rewrites_cons_iff {before t out : List Char} {c : Char}
    (hnone : splits word a b before (c :: t) = []) :
    Rewrites word a b cut before (c :: t) out ↔
      ∃ out', out = c :: out' ∧ Rewrites word a b cut (before ++ [c]) t out' := by
  constructor
  · intro h
    generalize ht : c :: t = s at h
    cases h with
    | done => cases ht
    | skip _ later =>
      cases ht
      exact ⟨_, rfl, later⟩
    | hit h =>
      rw [← ht, hnone] at h
      cases h
  · rintro ⟨out', rfl, h⟩
    exact .skip hnone h

/-- A place where a match starts. -/
theorem rewrites_hit_iff {before x v rest out : List Char}
    (hhead : (splits word a b before (x ++ (v ++ rest))).head? = some (x, v)) (hx : x ≠ []) :
    Rewrites word a b cut before (x ++ (v ++ rest)) out ↔
      ∃ w out', cut v = some w ∧ out = x ++ (w ++ out') ∧
        Rewrites word a b cut (before ++ (x ++ v)) rest out' := by
  constructor
  · intro h
    generalize ht : x ++ (v ++ rest) = s at h
    cases h with
    | done => exact absurd (List.append_eq_nil_iff.mp ht).1 hx
    | skip hnone =>
      rw [ht, hnone] at hhead
      cases hhead
    | hit hhead' _ hw later =>
      rw [ht, hhead'] at hhead
      cases hhead
      rw [List.append_cancel_left_eq, List.append_cancel_left_eq] at ht
      subst ht
      exact ⟨_, _, hw, rfl, later⟩
  · rintro ⟨w, out', hw, rfl, later⟩
    exact .hit hhead hx hw later

/-- No match starts in the text. -/
theorem rewrites_skip_iff {before u t out : List Char}
    (hnone : ∀ u₁ c u₂, u = u₁ ++ c :: u₂ → splits word a b (before ++ u₁) (c :: (u₂ ++ t)) = []) :
    Rewrites word a b cut before (u ++ t) out ↔
      ∃ out', out = u ++ out' ∧ Rewrites word a b cut (before ++ u) t out' := by
  induction u generalizing before out with
  | nil => simp
  | cons c u ih =>
    have hfirst := hnone [] c u rfl
    rw [List.append_nil] at hfirst
    have hlater : ∀ u₁ d u₂, u = u₁ ++ d :: u₂ →
        splits word a b (before ++ [c] ++ u₁) (d :: (u₂ ++ t)) = [] := by
      rintro u₁ d u₂ rfl
      have := hnone (c :: u₁) d u₂ rfl
      rwa [List.append_assoc]
    rw [List.cons_append, rewrites_cons_iff hfirst]
    simp only [ih hlater, List.append_assoc, List.cons_append]
    constructor
    · rintro ⟨_, rfl, out', rfl, h⟩
      exact ⟨out', rfl, h⟩
    · rintro ⟨out', rfl, h⟩
      exact ⟨_, rfl, out', rfl, h⟩

/-- No match that starts in `u` looks at the text `t` behind it. -/
def Apart (word : Char → Bool) (a b : Regex) (before u t : List Char) : Prop :=
  ∀ u₁ c u₂, u = u₁ ++ c :: u₂ →
    splits word a b (before ++ u₁) (c :: u₂ ++ t) = splits word a b (before ++ u₁) (c :: u₂)

theorem Apart.drop {before p u t : List Char} (h : Apart word a b before (p ++ u) t) :
    Apart word a b (before ++ p) u t := by
  rintro u₁ c u₂ rfl
  have := h (p ++ u₁) c u₂ (by simp)
  rwa [List.append_assoc]

theorem Apart.head {before u t : List Char} (h : Apart word a b before u t) (hu : u ≠ []) :
    splits word a b before (u ++ t) = splits word a b before u := by
  cases u with
  | nil => exact absurd rfl hu
  | cons c u =>
    have := h [] c u rfl
    rwa [List.append_nil] at this

/-- Two parts of a text that are apart can be rewritten one after the other. -/
theorem Rewrites.append {before u t p q : List Char} (hapart : Apart word a b before u t)
    (hp : Rewrites word a b cut before u p) (hq : Rewrites word a b cut (before ++ u) t q) :
    Rewrites word a b cut before (u ++ t) (p ++ q) := by
  induction hp with
  | done => simpa using hq
  | @skip before u p c hsplits _ ih =>
    rw [← hapart.head (by simp)] at hsplits
    refine .skip hsplits (ih (@Apart.drop word a b before [c] u t hapart) ?_)
    simpa using hq
  | @hit before x v rest w p hsplits hx hw _ ih =>
    rw [← hapart.head (by simp [hx])] at hsplits
    rw [← List.append_assoc] at hapart
    simp only [List.append_assoc] at hsplits ⊢
    exact .hit hsplits hx hw (ih hapart.drop (by simpa using hq))

/-- And so they are: no match goes over the end of the first part. -/
theorem Rewrites.split {before u t out : List Char} (hapart : Apart word a b before u t)
    (h : Rewrites word a b cut before (u ++ t) out) :
    ∃ p q, out = p ++ q ∧ Rewrites word a b cut before u p ∧
      Rewrites word a b cut (before ++ u) t q := by
  generalize hs : u ++ t = s at h
  induction h generalizing u with
  | done before =>
    obtain ⟨rfl, rfl⟩ := List.append_eq_nil_iff.mp hs
    exact ⟨[], [], rfl, .done _, .done _⟩
  | @skip before s out c hsplits later ih =>
    cases u with
    | nil =>
      rw [List.nil_append] at hs
      subst hs
      exact ⟨[], _, rfl, .done _, by simpa using Rewrites.skip hsplits later⟩
    | cons d u =>
      rw [List.cons_append, List.cons.injEq] at hs
      obtain ⟨rfl, rfl⟩ := hs
      obtain ⟨p, q, rfl, hp, hq⟩ := ih (@Apart.drop word a b before [d] u t hapart) rfl
      rw [List.append_assoc] at hq
      rw [← List.cons_append, hapart.head (by simp)] at hsplits
      exact ⟨d :: p, q, rfl, .skip hsplits hp, hq⟩
  | @hit before x v rest w out hsplits hx hw later ih =>
    cases u with
    | nil =>
      rw [List.nil_append] at hs
      subst hs
      exact ⟨[], _, rfl, .done _, by simpa using Rewrites.hit hsplits hx hw later⟩
    | cons d u =>
      rw [← hs, hapart.head (by simp)] at hsplits
      obtain ⟨rest', hu⟩ := append_of_mem_splits word (List.mem_of_head? hsplits)
      rw [hu, ← List.append_assoc] at hapart
      rw [hu] at hs hsplits ⊢
      simp only [List.append_assoc, List.append_cancel_left_eq] at hs
      obtain ⟨p, q, rfl, hp, hq⟩ := ih hapart.drop hs
      exact ⟨x ++ (w ++ p), q, by simp, .hit hsplits hx hw hp, by simpa using hq⟩

theorem rewrites_append_iff {before u t out : List Char} (hapart : Apart word a b before u t) :
    Rewrites word a b cut before (u ++ t) out ↔
      ∃ p q, out = p ++ q ∧ Rewrites word a b cut before u p ∧
        Rewrites word a b cut (before ++ u) t q := by
  constructor
  · exact Rewrites.split hapart
  · rintro ⟨p, q, rfl, hp, hq⟩
    exact hp.append hapart hq

/-- A character that no class has keeps the two sides of it apart. -/
theorem apart_of_avoids {d : Char} (hword : word d = false) (ha : a.avoids d) (hb : b.avoids d)
    (before u t : List Char) : Apart word a b before u (d :: t) := by
  intro u₁ c u₂ _
  exact splits_stop hword ha hb _ _ _

/-! ## The rewriting and the matches of a text -/

/-- The search with groups and the search without them agree. -/
theorem splits_first {n : Nat} (hn : n ≠ 0) (ha : n ∉ a.groups) (before after : List Char) :
    (splits word a b before after = [] ∧ first word (.seq a (.group n b)) before after = none) ∨
      ∃ x v gs, (splits word a b before after).head? = some (x, v) ∧
        first word (.seq a (.group n b)) before after = some (x ++ v, gs) ∧
          ∀ m, Captures.get ((0, m) :: gs) n = some ⟨byte_len (before ++ x), v⟩ := by
  have hpairs : ∃ pairs : List ((List Char × Captures) × (List Char × Captures)),
      splits word a b before after = pairs.map (fun p => (p.1.1, p.2.1)) ∧
        results word (.seq a (.group n b)) before after = pairs.map (fun p =>
          (p.1.1 ++ p.2.1, p.1.2 ++ (n, ⟨byte_len (before ++ p.1.1), p.2.1⟩) :: p.2.2)) ∧
          ∀ p ∈ pairs, p.1 ∈ results word a before after := by
    refine ⟨(results word a before after).flatMap fun x =>
      (results word b (before ++ x.1) (after.drop x.1.length)).map fun v => (x, v), ?_, ?_, ?_⟩
    · simp [splits, texts, List.map_flatMap, List.flatMap_map, Function.comp_def]
    · simp [results, List.map_flatMap, Function.comp_def]
    · simp only [List.mem_flatMap, List.mem_map]
      rintro p ⟨x, hx, v, _, rfl⟩
      exact hx
  obtain ⟨pairs, hsplits, hresults, hmem⟩ := hpairs
  rw [first, hsplits, hresults]
  cases pairs with
  | nil => exact .inl ⟨rfl, rfl⟩
  | cons p pairs =>
    refine .inr ⟨p.1.1, p.2.1, _, rfl, rfl, ?_⟩
    intro m
    obtain ⟨rest, _, hm⟩ := (mem_results_iff word).mp (hmem p (.head _))
    rw [← List.cons_append, get_append]
    · simp [Captures.get]
    · intro g hg
      cases hg with
      | head => exact hn.symm
      | tail _ hg =>
        rintro rfl
        exact ha (groups_of_matches word hm g hg)

/-- `pick` finds in a match the part of its value that `cut` replaces. -/
def Picks (n : Nat) (cut : List Char → Option (List Char)) (pick : Captures → Option (Nat × Nat))
    (mark : List Char) : Prop :=
  ∀ c p v w, c.get n = some ⟨p, v⟩ → cut v = some w →
    ∃ l m r, v = l ++ (m ++ r) ∧ w = l ++ (mark ++ r) ∧
      pick c = some (p + byte_len l, p + byte_len l + byte_len m)

/-- The rewriting is the replacement of the parts that the matches have. -/
theorem Rewrites.masks {n : Nat} (hn : n ≠ 0) (ha : n ∉ a.groups)
    {pick : Captures → Option (Nat × Nat)} {mark : List Char} (hpick : Picks n cut pick mark)
    {before after out : List Char} (h : Rewrites word a b cut before after out) :
    ∃ ranges, (captures_from word (.seq a (.group n b)) 0 before after).mapM pick = some ranges ∧
      Masks mark (byte_len before) after ranges out := by
  induction h with
  | done before => exact ⟨[], rfl, .done _ []⟩
  | @skip before t out c hsplits _ ih =>
    obtain ⟨ranges, hranges, hmasks⟩ := ih
    rw [byte_len_append] at hmasks
    refine ⟨ranges, ?_, hmasks.shift [c]⟩
    rcases splits_first hn ha before (c :: t) with ⟨_, hfirst⟩ | ⟨_, _, _, hhead, _⟩
    · rw [captures_from, first_group, hfirst]
      exact hranges
    · rw [hsplits] at hhead
      cases hhead
  | @hit before x v rest w out hsplits hx hw _ ih =>
    obtain ⟨ranges, hranges, hmasks⟩ := ih
    rcases splits_first hn ha before (x ++ (v ++ rest)) with
      ⟨hnone, _⟩ | ⟨_, _, gs, hhead, hfirst, hget⟩
    · rw [hnone] at hsplits
      cases hsplits
    · rw [hsplits] at hhead
      cases hhead
      rw [← List.append_assoc] at hfirst
      obtain ⟨l, m, r, rfl, rfl, hrange⟩ := hpick _ _ _ _ (hget ⟨byte_len before, x ++ v⟩) hw
      refine ⟨(byte_len (before ++ x) + byte_len l,
        byte_len (before ++ x) + byte_len l + byte_len m) :: ranges, ?_, ?_⟩
      · rw [← List.append_assoc, captures_from_some word (by simp [hx]) hfirst, List.mapM_cons,
          hrange, hranges]
        rfl
      · have hstart : byte_len (before ++ x) + byte_len l =
            byte_len before + byte_len (x ++ l) := by
          simp [Nat.add_assoc]
        rw [hstart]
        have hlen : byte_len (before ++ (x ++ (l ++ (m ++ r)))) =
            byte_len before + byte_len (x ++ l) + byte_len m + byte_len r := by
          simp [Nat.add_assoc]
        rw [hlen] at hmasks
        have := Masks.next (x ++ l) m (hmasks.shift r)
        simpa using this

/-- Every text is rewritten, or it has a match whose value `cut` refuses. -/
theorem rewrites_or_refused {n : Nat} (hn : n ≠ 0) (ha : n ∉ a.groups)
    (hhead : ∀ before after, [] ∉ texts word a before after) (before after : List Char) :
    (∃ out, Rewrites word a b cut before after out) ∨
      ∃ c ∈ captures_from word (.seq a (.group n b)) 0 before after, ∃ v,
        c.get n = some v ∧ cut v.text = none := by
  induction hlen : after.length using Nat.strongRecOn generalizing before after with
  | ind len ih =>
    cases after with
    | nil => exact .inl ⟨[], .done before⟩
    | cons c t =>
      rcases splits_first (b := b) hn ha before (c :: t) with
        ⟨hnone, hfirst⟩ | ⟨x, v, gs, hsplits, hfirst, hget⟩
      · rcases ih t.length (by simp [← hlen]) (before ++ [c]) t rfl with ⟨out, hout⟩ | ⟨d, hd, hv⟩
        · exact .inl ⟨c :: out, .skip hnone hout⟩
        · refine .inr ⟨d, ?_, hv⟩
          rw [captures_from, first_group, hfirst]
          exact hd
      · have hmem := List.mem_of_head? hsplits
        obtain ⟨rest, hafter⟩ := append_of_mem_splits word hmem
        have hx : x ≠ [] := by
          rintro rfl
          exact hhead _ _ ((mem_splits_iff word).mp hmem).1
        have hlater : rest.length < len := by
          have hpos := List.length_pos_iff.mpr hx
          rw [← hlen, hafter]
          simp only [List.length_append]
          omega
        rw [hafter] at hsplits hfirst ⊢
        rw [← List.append_assoc] at hfirst
        have hcaptures := captures_from_some word (by simp [hx]) hfirst
        rw [List.append_assoc] at hcaptures
        rw [hcaptures]
        cases hw : cut v with
        | none => exact .inr ⟨_, .head _, _, hget _, hw⟩
        | some w =>
          rcases ih rest.length hlater (before ++ (x ++ v)) rest rfl with ⟨out, hout⟩ | ⟨d, hd, hv⟩
          · exact .inl ⟨x ++ (w ++ out), .hit hsplits hx hw hout⟩
          · exact .inr ⟨d, .tail _ hd, hv⟩

end Rewriting

end regex
