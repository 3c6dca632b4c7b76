-- A key and a value of a log line under the passes of the redactor
-- (`redact_line` in `redact.rs`): where a value starts, and where it ends.
import Kaptein.LinePasses

open regex utf8 rust_str

namespace kaptein_core.redact

section

variable {word : Char → Bool}

/-! ## The key of a pattern in a line -/

/-- What the `regex` crate documents of letters: the two letters outside ASCII
that fold to letters of ASCII are word characters. -/
structure LetterWord (word : Char → Bool) : Prop extends UnicodeWord word where
  long_s : word '\u017f'
  kelvin : word '\u212a'

theorem key_texts_chars : ∀ w ∈ KEY_TEXTS, ∀ d ∈ w, d.isLower ∨ d = '_' ∨ d = '-' := by
  have h : KEY_TEXTS.all fun w => w.all fun d => d.isLower || d == '_' || d == '-' := by
    decide +kernel
  simpa [List.all_eq_true, or_assoc] using h

theorem key_texts_heads : ∀ w ∈ KEY_TEXTS, ∃ d u, w = d :: u ∧ d.isLower := by
  intro w hw
  have h : KEY_TEXTS.all fun w => w.head?.any Char.isLower := by decide +kernel
  have hhead := List.all_eq_true.mp h w hw
  cases w with
  | nil => cases hhead
  | cons d u => exact ⟨d, u, rfl, hhead⟩

theorem fold_case_letter {c : Char} (h : (Regex.fold_case c).isLower) :
    c = '\u017f' ∨ c = '\u212a' ∨ c.isAlpha := by
  unfold Regex.fold_case at h
  split_ifs at h with hs hk
  · exact .inl hs
  · exact .inr (.inl hk)
  · refine .inr (.inr ?_)
    rw [isAlpha_iff]
    by_cases hup : c.isUpper
    · exact .inl hup
    · have hsame : c.toLower = c := dif_neg fun hbounds => hup (decide_eq_true hbounds)
      rw [hsame] at h
      exact .inr h

theorem isAlpha_bounds {c : Char} (h : c.isAlpha) : 64 < c.toNat ∧ c.toNat < 128 := by
  rw [isAlpha_iff, isUpper_iff, isLower_iff] at h
  omega

/-- A character of a key is a letter, an underscore or a dash. -/
theorem key_text_char {y : List Char} (h : y.map Regex.fold_case ∈ KEY_TEXTS) {c : Char}
    (hc : c ∈ y) : c = '\u017f' ∨ c = '\u212a' ∨ c.isAlpha ∨ c = '_' ∨ c = '-' := by
  rcases key_texts_chars _ h _ (List.mem_map_of_mem hc) with hlow | hsign | hsign
  · have := fold_case_letter hlow
    tauto
  · rw [fold_case_eq_iff (by decide) rfl] at hsign
    exact .inr (.inr (.inr (.inl hsign)))
  · rw [fold_case_eq_iff (by decide) rfl] at hsign
    exact .inr (.inr (.inr (.inr hsign)))

theorem key_text_no_sign {y : List Char} (h : y.map Regex.fold_case ∈ KEY_TEXTS) {d : Char}
    (hd : d = '"' ∨ d = ':' ∨ d = '=') : d ∉ y := by
  intro hmem
  rcases hd with rfl | rfl | rfl <;> exact absurd (key_text_char h hmem) (by decide)

theorem LetterWord.key_head (hword : LetterWord word) {y : List Char}
    (h : y.map Regex.fold_case ∈ KEY_TEXTS) : y.head?.any word := by
  obtain ⟨d, u, hd, hlow⟩ := key_texts_heads _ h
  cases y with
  | nil => cases hd
  | cons c y =>
    rw [List.map_cons, List.cons.injEq] at hd
    rw [← hd.1] at hlow
    rcases fold_case_letter hlow with rfl | rfl | halpha
    · exact hword.long_s
    · exact hword.kelvin
    · rw [List.head?_cons, Option.any_some, hword.ascii c (isAlpha_bounds halpha).2]
      simp [ascii_word, Char.isAlphanum, halpha]

/-- The pass for the tokens passes over a key and its quote. -/
theorem tokens_key_iff (hword : UnicodeWord word) {k t out : List Char}
    (hk : k.map Regex.fold_case ∈ KEY_TEXTS) :
    Tokens word [] (k ++ '"' :: t) out ↔ ∃ o, out = k ++ '"' :: o ∧ Tokens word [] t o := by
  have hquote : word '"' = false := hword.ascii '"' (by decide)
  have hnone : ∀ u₁ c u₂, k = u₁ ++ c :: u₂ →
      splits word AUTH_HEAD BARE ([] ++ u₁) (c :: (u₂ ++ '"' :: t)) = [] := by
    intro u₁ c u₂ hu
    rw [List.eq_nil_iff_forall_not_mem]
    rintro ⟨x, v⟩ hmem
    have hx := ((mem_splits_iff word).mp hmem).1
    rw [← List.cons_append, texts_stop hquote (by decide +kernel)] at hx
    obtain ⟨rest, gs, hafter, hm⟩ := (mem_texts_iff word).mp hx
    obtain ⟨l, s, m, w, r, rfl, hs, _⟩ := matches_auth_head hm
    apply key_text_no_sign hk (.inr hs)
    rw [hu, hafter]
    simp
  rw [Tokens, rewrites_skip_iff hnone]
  simp only [tokens_sign_iff hword (c := '"') (by decide)]
  constructor
  · rintro ⟨_, rfl, o, rfl, h⟩
    exact ⟨o, rfl, h⟩
  · rintro ⟨o, rfl, h⟩
    exact ⟨_, rfl, o, rfl, h⟩

/-- No space stands in front of a character that is none. -/
theorem spaces_eq_nil {w u v : List Char} {d : Char} (hw : ∀ c ∈ w, is_whitespace c)
    (hd : is_whitespace d = false) (h : w ++ u = d :: v) : w = [] := by
  cases w with
  | nil => rfl
  | cons c w =>
    rw [List.cons_append, List.cons.injEq] at h
    rw [← h.1, hw c (.head _)] at hd
    cases hd

/-- A key of the pattern in front of a quote, a space or a separator is the
whole key. -/
theorem key_eq_of_head {k y q w₁ u t : List Char} {s : Char}
    (hk : k.map Regex.fold_case ∈ KEY_TEXTS) (hy : y.map Regex.fold_case ∈ KEY_TEXTS)
    (hq : q = [] ∨ q = ['"']) (hw₁ : ∀ c ∈ w₁, is_whitespace c) (hs : s = ':' ∨ s = '=')
    (h : k ++ '"' :: t = y ++ (q ++ (w₁ ++ s :: u))) : y = k := by
  rcases List.append_eq_append_iff.mp h with ⟨r, rfl, hr⟩ | ⟨r, rfl, hr⟩
  · cases r with
    | nil => simp
    | cons c r =>
      rw [List.cons_append, List.cons.injEq] at hr
      exact absurd (by simp [← hr.1]) (key_text_no_sign hy (.inl rfl))
  · cases r with
    | nil => simp
    | cons c r =>
      -- The next character of the key would be a quote, a space or a separator.
      have hc : c ∈ y ++ c :: r := by simp
      have hno := key_text_no_space hk c hc
      rw [Bool.not_eq_true] at hno
      rcases hq with rfl | rfl
      · rw [List.nil_append] at hr
        have hnil := spaces_eq_nil hw₁ hno hr
        subst hnil
        simp only [List.nil_append, List.cons_append, List.cons.injEq] at hr
        rw [hr.1] at hs
        exact absurd hc (key_text_no_sign hk (.inr hs))
      · simp only [List.nil_append, List.cons_append, List.cons.injEq] at hr
        exact absurd hc (key_text_no_sign hk (.inl hr.1.symm))

/-- The head of the value pattern at a key between quotes. -/
theorem matches_kv_head_key {k x t rest before : List Char} {gs : Captures}
    (hk : k.map Regex.fold_case ∈ KEY_TEXTS) (hx : k ++ '"' :: ':' :: '"' :: t = x ++ rest)
    (hm : Matches word KV_HEAD before x rest gs) : x = k ++ ['"', ':'] := by
  obtain ⟨_, y, q, w₁, s, w₂, rfl, hy, hq, hw₁, hs, hw₂⟩ := matches_kv_head hm
  simp only [List.append_assoc, List.cons_append] at hx
  have hyk := key_eq_of_head hk hy hq hw₁ hs hx
  subst hyk
  rw [List.append_cancel_left_eq] at hx
  rcases hq with rfl | rfl
  · rw [List.nil_append] at hx
    have hnil := spaces_eq_nil hw₁ (by decide) hx.symm
    subst hnil
    simp only [List.nil_append, List.cons.injEq] at hx
    rw [← hx.1] at hs
    exact absurd hs (by decide)
  · simp only [List.cons_append, List.nil_append, List.cons.injEq, true_and] at hx
    have hnil := spaces_eq_nil hw₁ (by decide) hx.symm
    subst hnil
    simp only [List.nil_append, List.cons.injEq] at hx
    obtain ⟨rfl, hx⟩ := hx
    have hnil := spaces_eq_nil hw₂ (by decide) hx.symm
    subst hnil
    rfl

theorem LetterWord.matches_key (hword : LetterWord word) {k : List Char}
    (hk : k.map Regex.fold_case ∈ KEY_TEXTS) (rest : List Char) :
    ∃ gs, Matches word KV_HEAD [] (k ++ ['"', ':']) rest gs := by
  have hbound : at_boundary word [] (k ++ ('"' :: ':' :: rest)) := by
    have hhead := hword.key_head hk
    cases k with
    | nil => cases hhead
    | cons c k => simpa [at_boundary] using hhead
  have hsep : Matches word SEPARATOR (k ++ ['"']) [':'] rest [] :=
    .seq_plain word (u := []) (.many _ _ (by simp))
      (.seq_plain word (u := [':']) (.one _ _ rfl) (.many (u := []) _ _ (by simp)))
  have hquote : Matches word (.opt (.one is_quote)) k ['"'] ([':'] ++ rest) [] :=
    .altl (.one _ _ rfl)
  have hkey : Matches word SENSITIVE_KEY_ALT [] k (['"', ':'] ++ rest) [] :=
    (spells_key _ _ _ _).mpr ⟨hk, rfl⟩
  have hrest := Matches.seq_plain word hkey (.seq_plain word hquote (.group (n := 1) hsep))
  have hb : Matches word .boundary [] [] ((k ++ ['"', ':']) ++ rest) [] :=
    .boundary (by simpa using hbound)
  exact ⟨_, .seq_plain word (u := []) hb hrest⟩

/-- The value pattern takes a key between quotes and the value behind it. -/
theorem LetterWord.splits_key (hword : LetterWord word) {k t v : List Char}
    (hk : k.map Regex.fold_case ∈ KEY_TEXTS)
    (hv : (texts word (.alt QUOTED BARE) (k ++ ['"', ':']) ('"' :: t)).head? = some v) :
    (splits word KV_HEAD (.alt QUOTED BARE) [] (k ++ '"' :: ':' :: '"' :: t)).head? =
      some (k ++ ['"', ':'], v) := by
  have happ : k ++ '"' :: ':' :: '"' :: t = (k ++ ['"', ':']) ++ '"' :: t := by simp
  have hmem : k ++ ['"', ':'] ∈ texts word KV_HEAD [] (k ++ '"' :: ':' :: '"' :: t) := by
    obtain ⟨gs, hm⟩ := hword.matches_key hk ('"' :: t)
    exact (mem_texts_iff word).mpr ⟨'"' :: t, gs, happ, hm⟩
  unfold splits
  cases htexts : texts word KV_HEAD [] (k ++ '"' :: ':' :: '"' :: t) with
  | nil =>
    rw [htexts] at hmem
    cases hmem
  | cons x xs =>
    have hx : x ∈ texts word KV_HEAD [] (k ++ '"' :: ':' :: '"' :: t) := by simp [htexts]
    obtain ⟨rest, gs, hafter, hm⟩ := (mem_texts_iff word).mp hx
    have hkey := matches_kv_head_key hk hafter hm
    subst hkey
    rw [List.flatMap_cons, List.head?_append, List.head?_map, happ, List.drop_left,
      List.nil_append, hv]
    rfl

/-- The pass for the values at a key whose value is between quotes. -/
theorem values_key_iff (hword : LetterWord word) {k w y out : List Char}
    (hk : k.map Regex.fold_case ∈ KEY_TEXTS) (hw : '"' ∉ w) :
    Values word [] (k ++ '"' :: ':' :: '"' :: (w ++ '"' :: y)) out ↔
      ∃ o, out = k ++ '"' :: ':' :: '"' :: (REDACTED.toList ++ '"' :: o) ∧ Values word [] y o := by
  have hfirst : (texts word (.alt QUOTED BARE) (k ++ ['"', ':']) ('"' :: (w ++ '"' :: y))).head? =
      some ('"' :: (w ++ ['"'])) := by
    rw [texts_alt, texts_quoted hw]
    rfl
  have hsplits := hword.splits_key hk hfirst
  have happ : k ++ '"' :: ':' :: '"' :: (w ++ '"' :: y) =
      (k ++ ['"', ':']) ++ (('"' :: (w ++ ['"'])) ++ y) := by simp
  have hcut : value_cut ('"' :: (w ++ ['"'])) = some ('"' :: (REDACTED.toList ++ ['"'])) := by
    unfold value_cut
    rw [if_neg (by simp), if_pos ⟨rfl, by rw [← List.cons_append, List.getLast?_concat]⟩]
  have hend : SameEnd word ([] ++ ((k ++ ['"', ':']) ++ '"' :: (w ++ ['"']))) [] := by
    have := hword.sign_end (c := '"') (by decide) ((k ++ ['"', ':']) ++ '"' :: w)
    simpa using this
  rw [happ] at hsplits
  rw [happ, Values, rewrites_hit_iff hsplits (by simp), hcut]
  constructor
  · rintro ⟨_, o, hw, rfl, ho⟩
    cases hw
    exact ⟨o, by simp, ho.same_end hend⟩
  · rintro ⟨o, rfl, ho⟩
    exact ⟨_, o, rfl, by simp, ho.same_end hend.symm⟩

/-- A value whose quote nothing closes has no quote in its place. -/
theorem values_key_open (hword : LetterWord word) {k t out : List Char}
    (hk : k.map Regex.fold_case ∈ KEY_TEXTS) (ht : '"' ∉ t)
    (h : Values word [] (k ++ '"' :: ':' :: '"' :: t) out) :
    ∃ o, out = k ++ '"' :: ':' :: (REDACTED.toList ++ o) := by
  have hv : ('"' :: t).takeWhile is_value_char = '"' :: t.takeWhile is_value_char := by
    rw [List.takeWhile_cons, if_pos (by decide)]
  have hfirst : (texts word (.alt QUOTED BARE) (k ++ ['"', ':']) ('"' :: t)).head? =
      some ('"' :: t.takeWhile is_value_char) := by
    rw [texts_alt, texts_not_closed ht, List.nil_append, BARE, head?_texts_some_of, hv,
      if_neg (by simp)]
  have hsplits := hword.splits_key hk hfirst
  have happ : k ++ '"' :: ':' :: '"' :: t = (k ++ ['"', ':']) ++
      (('"' :: t.takeWhile is_value_char) ++ t.dropWhile is_value_char) := by simp
  rw [happ] at hsplits h
  obtain ⟨w, o, hcut, rfl, _⟩ := (rewrites_hit_iff hsplits (by simp)).mp h
  unfold value_cut at hcut
  split_ifs at hcut with hlone hquotes
  · have hne : t.takeWhile is_value_char ≠ [] := by simpa using hlone
    have hlast := hquotes.2
    rw [← List.singleton_append, List.getLast?_append_of_ne_nil _ hne] at hlast
    exact absurd ((List.takeWhile_prefix _).subset (List.mem_of_getLast? hlast)) ht
  · cases hcut
    exact ⟨o, by simp⟩

/-! ## The end of a value -/

/-- What stands behind the text of a value in a member, or at the end of the line. -/
def ENDINGS : List (List Char) := [['"'], ['"', '\x7d']]

theorem ending_cons {q : List Char} (hq : q ∈ ENDINGS) :
    ∃ e, q = '"' :: e ∧ (∀ c ∈ q, c ∈ SIGNS) ∧ ∀ c ∈ q, is_value_char c := by
  simp only [ENDINGS, List.mem_cons, List.not_mem_nil, or_false] at hq
  rcases hq with rfl | rfl
  · exact ⟨[], rfl, by simp [SIGNS], by simp; decide⟩
  · exact ⟨['\x7d'], rfl, by simp [SIGNS], by simp; decide⟩

/-- Whether a token starts here, and behind which head, does not depend on the
ending of the text. -/
theorem splits_ending (hword : UnicodeWord word) (before t : List Char) :
    ∃ found : Option (List Char × List Char), (∀ p ∈ found, t = p.1 ++ p.2) ∧
      ∀ q ∈ ENDINGS, (splits word AUTH_HEAD BARE before (t ++ q)).head? =
        found.map fun p => (p.1, (p.2 ++ q).takeWhile is_value_char) := by
  have hheads : ∀ heads : List (List Char), (∀ x ∈ heads, ∃ r, t = x ++ r) →
      ∃ found : Option (List Char × List Char), (∀ p ∈ found, t = p.1 ++ p.2) ∧
        ∀ q ∈ ENDINGS, (heads.flatMap fun x =>
          (texts word BARE (before ++ x) ((t ++ q).drop x.length)).map fun v => (x, v)).head? =
            found.map fun p => (p.1, (p.2 ++ q).takeWhile is_value_char) := by
    intro heads hprefix
    induction heads with
    | nil => exact ⟨none, by simp, by simp⟩
    | cons x heads ih =>
      obtain ⟨found, hfound, hlater⟩ := ih fun y hy => hprefix y (.tail _ hy)
      obtain ⟨r, rfl⟩ := hprefix x (.head _)
      have hhere : ∀ q, (texts word BARE (before ++ x) ((x ++ r ++ q).drop x.length)).head? =
          if (r ++ q).takeWhile is_value_char = [] then none
          else some ((r ++ q).takeWhile is_value_char) := by
        intro q
        rw [List.append_assoc, List.drop_left, BARE, head?_texts_some_of]
      by_cases hr : ∃ c s, r = c :: s ∧ is_value_char c = false
      · -- No value is here, and the next head is tried.
        obtain ⟨c, s, rfl, hc⟩ := hr
        refine ⟨found, hfound, ?_⟩
        intro q hq
        have hnone := hhere q
        rw [if_pos (by simp [hc]), List.head?_eq_none_iff] at hnone
        rw [List.flatMap_cons, hnone, List.map_nil, List.nil_append, hlater q hq]
      · refine ⟨some (x, r), by simp, ?_⟩
        intro q hq
        have hsome := hhere q
        rw [if_neg] at hsome
        · rw [List.flatMap_cons, List.head?_append, List.head?_map, hsome]
          rfl
        · obtain ⟨e, rfl, _, _⟩ := ending_cons hq
          intro hnil
          cases r with
          | nil => exact absurd hnil (by simp [List.takeWhile_cons]; decide)
          | cons c s =>
            rw [List.cons_append, List.takeWhile_cons] at hnil
            split_ifs at hnil with hc
            exact hr ⟨c, s, rfl, by simpa using hc⟩
  have hquote : word '"' = false := hword.ascii '"' (by decide)
  obtain ⟨found, hfound, hall⟩ := hheads (texts word AUTH_HEAD before t) (by
    intro x hx
    obtain ⟨r, _, ht, _⟩ := (mem_texts_iff word).mp hx
    exact ⟨r, ht⟩)
  refine ⟨found, hfound, ?_⟩
  intro q hq
  rw [← hall q hq]
  obtain ⟨e, rfl, _, _⟩ := ending_cons hq
  rw [splits, texts_stop hquote (by decide +kernel)]

theorem splits_ending_none (hword : UnicodeWord word) {before t q : List Char} (hq : q ∈ ENDINGS)
    (h : splits word AUTH_HEAD BARE before (t ++ q) = []) :
    ∀ q' ∈ ENDINGS, splits word AUTH_HEAD BARE before (t ++ q') = [] := by
  obtain ⟨found, _, hfound⟩ := splits_ending hword before t
  have hnone : found = none := by
    have := hfound q hq
    rw [h] at this
    simpa using this.symm
  intro q' hq'
  have := hfound q' hq'
  rw [hnone] at this
  simpa using this

/-- A token that starts in front of an ending runs to the end, or it stops in
front of the ending. -/
theorem splits_ending_some (hword : UnicodeWord word) {before t q x v : List Char}
    (hq : q ∈ ENDINGS)
    (h : (splits word AUTH_HEAD BARE before (t ++ q)).head? = some (x, v)) :
    ∃ r, t = x ++ r ∧
      ((v = r ++ q ∧ ∀ q' ∈ ENDINGS,
          (splits word AUTH_HEAD BARE before (t ++ q')).head? = some (x, r ++ q')) ∨
        ∃ u, r = v ++ u ∧ ∀ q' ∈ ENDINGS,
          (splits word AUTH_HEAD BARE before (t ++ q')).head? = some (x, v)) := by
  obtain ⟨found, hprefix, hfound⟩ := splits_ending hword before t
  have hhere := hfound q hq
  rw [h] at hhere
  obtain ⟨⟨y, r⟩, hsome, hxv⟩ := Option.map_eq_some_iff.mp hhere.symm
  obtain ⟨rfl, rfl⟩ := Prod.mk.inj hxv
  rw [hsome] at hfound
  refine ⟨r, hprefix _ hsome, ?_⟩
  cases hstop : r.dropWhile is_value_char with
  | nil =>
    have hall : ∀ q' ∈ ENDINGS, (r ++ q').takeWhile is_value_char = r ++ q' := by
      intro q' hq'
      obtain ⟨_, _, _, hvalues⟩ := ending_cons hq'
      rw [List.takeWhile_eq_self_iff]
      intro c hc
      rcases List.mem_append.mp hc with hc | hc
      · exact List.dropWhile_eq_nil_iff.mp hstop c hc
      · exact hvalues c hc
    refine .inl ⟨hall q hq, ?_⟩
    intro q' hq'
    rw [hfound q' hq', Option.map_some, hall q' hq']
  | cons c u =>
    have hc : is_value_char c = false := by
      have := List.head?_dropWhile_not is_value_char r
      simpa [hstop] using this
    have hr : r = r.takeWhile is_value_char ++ c :: u := by
      rw [← hstop, List.takeWhile_append_dropWhile]
    have hshort : ∀ q', (r ++ q').takeWhile is_value_char = r.takeWhile is_value_char := by
      intro q'
      rw [hr, List.append_assoc, List.takeWhile_append_of_pos fun d hd => List.mem_takeWhile_imp hd,
        List.cons_append, List.takeWhile_cons, if_neg (by simp [hc]), ← hr, List.append_nil]
    refine .inr ⟨c :: u, by rwa [hshort], ?_⟩
    intro q' hq'
    rw [hfound q' hq', Option.map_some, hshort, hshort]

/-- An ending is in the last token, or the text in front of it is rewritten
by itself. -/
theorem tokens_ending (hword : UnicodeWord word) {before t q out : List Char} (hq : q ∈ ENDINGS)
    (h : Tokens word before (t ++ q) out) :
    ∃ w, (out = w ++ q ∧ ∀ q' ∈ ENDINGS, Tokens word before (t ++ q') (w ++ q')) ∨
      (out = w ++ REDACTED.toList ∧
        ∀ q' ∈ ENDINGS, Tokens word before (t ++ q') (w ++ REDACTED.toList)) := by
  generalize hs : t ++ q = s at h
  induction h generalizing t with
  | done =>
    obtain ⟨e, rfl, _⟩ := ending_cons hq
    simp at hs
  | @skip before s out c hsplits later ih =>
    cases t with
    | nil =>
      rw [List.nil_append] at hs
      have hsigns : ∀ q' ∈ ENDINGS, ∀ o, Tokens word before q' o ↔ o = q' := by
        intro q' hq' o
        obtain ⟨_, _, hsigns, _⟩ := ending_cons hq'
        exact tokens_signs hword hsigns
      refine ⟨[], .inl ⟨?_, fun q' hq' => (hsigns q' hq' _).mpr rfl⟩⟩
      apply (hsigns q hq _).mp
      rw [hs]
      exact Rewrites.skip hsplits later
    | cons d t =>
      rw [List.cons_append, List.cons.injEq] at hs
      obtain ⟨rfl, rfl⟩ := hs
      rw [← List.cons_append] at hsplits
      have hskip := splits_ending_none hword hq hsplits
      obtain ⟨w, ⟨rfl, hw⟩ | ⟨rfl, hw⟩⟩ := ih rfl
      · exact ⟨d :: w, .inl ⟨rfl, fun q' hq' => .skip (hskip q' hq') (hw q' hq')⟩⟩
      · exact ⟨d :: w, .inr ⟨rfl, fun q' hq' => .skip (hskip q' hq') (hw q' hq')⟩⟩
  | @hit before x v rest w out hsplits hx hw later ih =>
    rw [← hs] at hsplits
    obtain ⟨r, rfl, hcases⟩ := splits_ending_some hword hq hsplits
    rw [List.append_assoc, List.append_cancel_left_eq] at hs
    cases hw
    rcases hcases with ⟨rfl, hall⟩ | ⟨u, rfl, hall⟩
    · rw [List.self_eq_append_right] at hs
      subst hs
      rw [rewrites_nil_iff.mp later]
      refine ⟨x, .inr ⟨by simp, ?_⟩⟩
      intro q' hq'
      have hhead : (splits word AUTH_HEAD BARE before (x ++ ((r ++ q') ++ []))).head? =
          some (x, r ++ q') := by
        rw [List.append_nil, ← List.append_assoc, hall q' hq']
      have hrun : Tokens word before (x ++ ((r ++ q') ++ [])) (x ++ (REDACTED.toList ++ [])) :=
        .hit hhead hx rfl (.done _)
      simpa using hrun
    · rw [List.append_assoc, List.append_cancel_left_eq] at hs
      have hrun : ∀ q' ∈ ENDINGS, ∀ o, Tokens word (before ++ (x ++ v)) (u ++ q') o →
          Tokens word before (x ++ (v ++ u) ++ q') (x ++ (REDACTED.toList ++ o)) := by
        intro q' hq' o ho
        have hhead := hall q' hq'
        rw [List.append_assoc, List.append_assoc] at hhead ⊢
        exact .hit hhead hx rfl ho
      obtain ⟨w, ⟨rfl, hw⟩ | ⟨rfl, hw⟩⟩ := ih hs
      · refine ⟨x ++ (REDACTED.toList ++ w), .inl ⟨by simp, ?_⟩⟩
        intro q' hq'
        simpa using hrun q' hq' _ (hw q' hq')
      · refine ⟨x ++ (REDACTED.toList ++ w), .inr ⟨by simp, ?_⟩⟩
        intro q' hq'
        simpa using hrun q' hq' _ (hw q' hq')

/-- A comma of the rewritten text is a comma of the text. -/
theorem tokens_comma_back {before t p q : List Char} (hword : UnicodeWord word)
    (h : Tokens word before t (p ++ ',' :: q)) :
    ∃ s r, t = s ++ ',' :: r ∧ Tokens word [] r q := by
  generalize ho : p ++ ',' :: q = o at h
  induction h generalizing p with
  | done => simp at ho
  | @skip before t o c hsplits later ih =>
    cases p with
    | nil =>
      rw [List.nil_append, List.cons.injEq] at ho
      obtain ⟨rfl, rfl⟩ := ho
      exact ⟨[], t, rfl, later.same_end (hword.sign_end (by decide) before)⟩
    | cons d p =>
      rw [List.cons_append, List.cons.injEq] at ho
      obtain ⟨s, r, rfl, hr⟩ := ih ho.2
      exact ⟨c :: s, r, rfl, hr⟩
  | @hit before x v rest w o hsplits hx hw later ih =>
    cases hw
    have hno : ',' ∉ x ++ REDACTED.toList := by
      obtain ⟨_, _, _, hm⟩ := (mem_texts_iff word).mp
        ((mem_splits_iff word).mp (List.mem_of_head? hsplits)).1
      have hhead := not_mem_of_avoids word (d := ',') (by decide +kernel) hm
      rw [List.mem_append, not_or]
      exact ⟨hhead, by decide⟩
    rw [← List.append_assoc] at ho
    have hlater : ∃ p', o = p' ++ ',' :: q := by
      rcases List.append_eq_append_iff.mp ho with ⟨r, hr, ho⟩ | ⟨r, _, ho⟩
      · cases r with
        | nil => exact ⟨[], ho.symm⟩
        | cons d r =>
          rw [List.cons_append, List.cons.injEq] at ho
          rw [hr, ← ho.1] at hno
          simp at hno
      · exact ⟨r, ho⟩
    obtain ⟨p', ho⟩ := hlater
    obtain ⟨s, r, rfl, hr⟩ := ih ho.symm
    exact ⟨x ++ (v ++ s), r, by simp, hr⟩

end

end kaptein_core.redact
