-- The passes of the log redactor (`redact_line` in `redact.rs`) on the parts
-- of a line: where no match starts, and how far a match looks.
import Kaptein.Lib.Rewrite
import Kaptein.LogKeys

open regex utf8 rust_str

namespace kaptein_core.redact

/-! ## The passes as rewritings -/

def token_cut (_ : List Char) : Option (List Char) := some REDACTED.toList

/-- A value between quotes keeps them. A quote alone has no text to replace. -/
def value_cut (v : List Char) : Option (List Char) :=
  if v = ['"'] then none
  else if v.head? = some '"' ∧ v.getLast? = some '"' then some ('"' :: (REDACTED.toList ++ ['"']))
  else some REDACTED.toList

/-- The first pass on a part of a line. -/
abbrev Tokens (word : Char → Bool) : List Char → List Char → List Char → Prop :=
  Rewrites word AUTH_HEAD BARE token_cut

/-- The second pass on a part of a line. -/
abbrev Values (word : Char → Bool) : List Char → List Char → List Char → Prop :=
  Rewrites word KV_HEAD (.alt QUOTED BARE) value_cut

theorem picks_token : Picks 4 token_cut token_range REDACTED.toList := by
  intro c p v w hget hw
  cases hw
  refine ⟨[], v, [], by simp, by simp, ?_⟩
  rw [token_range, hget]
  rfl

theorem picks_value : Picks 2 value_cut value_range REDACTED.toList := by
  intro c p v w hget hw
  unfold value_cut at hw
  unfold value_range
  rw [hget, Option.map_some]
  split_ifs at hw with hlone hquotes
  · cases hw
    obtain ⟨t, rfl⟩ := List.head?_eq_some_iff.mp hquotes.1
    rcases List.eq_nil_or_concat' t with rfl | ⟨m, d, rfl⟩
    · exact absurd rfl hlone
    · have hd := hquotes.2
      rw [← List.cons_append, List.getLast?_concat, Option.some.injEq] at hd
      subst hd
      refine ⟨['"'], m, ['"'], rfl, rfl, ?_⟩
      rw [if_pos hquotes]
      have hquote : '"'.utf8Size = 1 := rfl
      simp only [Match.end_, byte_len_append, byte_len_cons, byte_len_nil, hquote,
        Option.some.injEq, Prod.mk.injEq, true_and]
      omega
  · cases hw
    refine ⟨[], v, [], by simp, by simp, ?_⟩
    rw [if_neg hquotes]
    rfl

section

variable {word : Char → Bool}

theorem matches_head_ne_nil {before x rest : List Char} {gs : Captures}
    (h : Matches word AUTH_HEAD before x rest gs) : x ≠ [] := by
  obtain ⟨l, s, m, w, r, rfl, _⟩ := matches_auth_head h
  simp

theorem mask_tokens_rewrites {line out : List Char} :
    mask_tokens word line = some out ↔ Tokens word [] line out := by
  have hmask : ∀ o, Tokens word [] line o → mask_tokens word line = some o := by
    intro o h
    obtain ⟨ranges, hranges, hmasks⟩ := h.masks (by decide) (by decide) picks_token
    have hreplace := replace_ranges_masks hmasks [] rfl
    rw [mask_tokens, mask, captures_iter, AUTH, hranges]
    exact hreplace
  constructor
  · intro h
    have hhead : ∀ before after, [] ∉ texts word AUTH_HEAD before after := by
      intro before after hmem
      obtain ⟨rest, gs, _, hm⟩ := (mem_texts_iff word).mp hmem
      exact matches_head_ne_nil hm rfl
    rcases @rewrites_or_refused word AUTH_HEAD BARE token_cut 4 (by decide) (by decide) hhead []
      line with ⟨o, ho⟩ | ⟨c, _, v, _, hrefused⟩
    · rw [hmask o ho, Option.some.injEq] at h
      rwa [← h]
    · cases hrefused
  · exact hmask out

theorem mask_key_values_rewrites {line out : List Char} :
    mask_key_values word line = some out ↔ Values word [] line out := by
  have hmask : ∀ o, Values word [] line o → mask_key_values word line = some o := by
    intro o h
    obtain ⟨ranges, hranges, hmasks⟩ := h.masks (by decide) (by decide) picks_value
    have hreplace := replace_ranges_masks hmasks [] rfl
    rw [mask_key_values, mask, captures_iter, KV, hranges]
    exact hreplace
  constructor
  · intro h
    have hhead : ∀ before after, [] ∉ texts word KV_HEAD before after := by
      intro before after hmem
      obtain ⟨rest, gs, _, hm⟩ := (mem_texts_iff word).mp hmem
      obtain ⟨_, y, q, w₁, s, w₂, hx, _⟩ := matches_kv_head hm
      simp at hx
    rcases @rewrites_or_refused word KV_HEAD (.alt QUOTED BARE) value_cut 2 (by decide) (by decide)
      hhead [] line with ⟨o, ho⟩ | ⟨c, hc, v, hget, hrefused⟩
    · rw [hmask o ho, Option.some.injEq] at h
      rwa [← h]
    · -- The search has met a lone quote.
      have hlone : v.text = ['"'] := by
        unfold value_cut at hrefused
        split_ifs at hrefused with hlone
        exact hlone
      rw [key_values_fail word ((hasLoneQuote_iff word line).mpr ⟨c, hc, v, hget, hlone⟩)] at h
      cases h
  · exact hmask out

theorem tokens_unique {t out out' : List Char} (h : Tokens word [] t out)
    (h' : Tokens word [] t out') : out = out' := by
  rw [← mask_tokens_rewrites] at h h'
  rw [h, Option.some.injEq] at h'
  exact h'

/-- Both passes on a part of a line. -/
def Redacts (word : Char → Bool) (text out : List Char) : Prop :=
  ∃ z, Tokens word [] text z ∧ Values word [] z out

theorem redacts_unique {t out out' : List Char} (h : Redacts word t out)
    (h' : Redacts word t out') : out = out' := by
  obtain ⟨z, hz, hout⟩ := h
  obtain ⟨z', hz', hout'⟩ := h'
  rw [← tokens_unique hz hz', ← mask_key_values_rewrites] at hout'
  rw [← mask_key_values_rewrites, hout', Option.some.injEq] at hout
  exact hout.symm

theorem redact_line_iff {line out : String} :
    redact_line word line = some out ↔ Redacts word line.toList out.toList := by
  unfold redact_line Redacts
  rw [Option.map_eq_some_iff]
  constructor
  · rintro ⟨o, ho, rfl⟩
    obtain ⟨z, hz, ho⟩ := Option.bind_eq_some_iff.mp ho
    rw [String.toList_ofList]
    exact ⟨z, mask_tokens_rewrites.mp hz, mask_key_values_rewrites.mp ho⟩
  · rintro ⟨z, hz, ho⟩
    refine ⟨out.toList, ?_, String.ofList_toList⟩
    rw [mask_tokens_rewrites.mpr hz]
    exact mask_key_values_rewrites.mpr ho

/-! ## Where no match starts -/

/-- The signs around the keys and the values of an object. -/
def SIGNS : List Char := ['\x7b', '\x7d', ',', ':', '"']

theorem spells_scheme_key : Spells word
    (.any_of (.literal "authorization") [two_words "auth" "token"])
    (["authorization".toList] ++ [two_words_texts "auth" "token"].flatten) :=
  (spells_literal _).any_of (.cons (spells_two_words _ _) .nil)

theorem fold_case_sign {c : Char} (hc : c ∈ SIGNS) : Regex.fold_case c = c := by
  have h : SIGNS.all fun c => Regex.fold_case c == c := by decide
  simpa using List.all_eq_true.mp h c hc

/-- A key of a pattern does not start with a sign. -/
theorem not_sign_of_fold {texts : List (List Char)}
    (htexts : texts.all fun w => w.head?.any fun d => !SIGNS.contains d) {y : List Char}
    (hy : y.map Regex.fold_case ∈ texts) : ∃ c u, y = c :: u ∧ c ∉ SIGNS := by
  have hfirst := List.all_eq_true.mp htexts _ hy
  cases y with
  | nil => simp at hfirst
  | cons c u =>
    refine ⟨c, u, rfl, ?_⟩
    intro hc
    simp [fold_case_sign hc] at hfirst
    exact hfirst hc

theorem splits_tokens_sign {before t : List Char} {c : Char} (hc : c ∈ SIGNS) :
    splits word AUTH_HEAD BARE before (c :: t) = [] := by
  rw [List.eq_nil_iff_forall_not_mem]
  rintro ⟨x, v⟩ hmem
  obtain ⟨rest, gs, hx, hm⟩ := (mem_texts_iff word).mp ((mem_splits_iff word).mp hmem).1
  unfold AUTH_HEAD at hm
  cases hm with
  | seq hbound hm =>
    cases hbound
    cases hm with
    | seq hkey _ =>
      cases hkey with
      | group hkey =>
        obtain ⟨d, u, rfl, hd⟩ :=
          not_sign_of_fold (by decide +kernel) ((spells_scheme_key _ _ _ _).mp hkey).1
        cases hx
        exact hd hc

theorem splits_values_sign {before t : List Char} {c : Char} (hc : c ∈ SIGNS) :
    splits word KV_HEAD (.alt QUOTED BARE) before (c :: t) = [] := by
  rw [List.eq_nil_iff_forall_not_mem]
  rintro ⟨x, v⟩ hmem
  obtain ⟨rest, gs, hx, hm⟩ := (mem_texts_iff word).mp ((mem_splits_iff word).mp hmem).1
  obtain ⟨_, y, q, w₁, s, w₂, rfl, hy, _⟩ := matches_kv_head hm
  obtain ⟨d, u, rfl, hd⟩ := not_sign_of_fold (by decide +kernel) hy
  cases hx
  exact hd hc

theorem UnicodeWord.sign_end (hword : UnicodeWord word) {c : Char} (hc : c ∈ SIGNS)
    (before : List Char) : SameEnd word (before ++ [c]) [] := by
  have h : SIGNS.all fun c => decide (c.toNat < 128) && !ascii_word c := by decide
  have hsign := List.all_eq_true.mp h c hc
  simp only [Bool.and_eq_true, decide_eq_true_eq, Bool.not_eq_true'] at hsign
  simp [SameEnd, hword.ascii c hsign.1, hsign.2]

/-- Such a sign stays, and the text behind it is rewritten by itself. -/
theorem rewrites_sign_iff (hword : UnicodeWord word) {a b : Regex}
    {cut : List Char → Option (List Char)} {before t out : List Char} {c : Char} (hc : c ∈ SIGNS)
    (hnone : splits word a b before (c :: t) = []) :
    Rewrites word a b cut before (c :: t) out ↔
      ∃ o, out = c :: o ∧ Rewrites word a b cut [] t o := by
  have hend := hword.sign_end hc before
  rw [rewrites_cons_iff hnone]
  constructor
  · rintro ⟨o, rfl, h⟩
    exact ⟨o, rfl, h.same_end hend⟩
  · rintro ⟨o, rfl, h⟩
    exact ⟨o, rfl, h.same_end hend.symm⟩

theorem tokens_sign_iff (hword : UnicodeWord word) {before t out : List Char} {c : Char}
    (hc : c ∈ SIGNS) :
    Tokens word before (c :: t) out ↔ ∃ o, out = c :: o ∧ Tokens word [] t o :=
  rewrites_sign_iff hword hc (splits_tokens_sign hc)

theorem values_sign_iff (hword : UnicodeWord word) {before t out : List Char} {c : Char}
    (hc : c ∈ SIGNS) :
    Values word before (c :: t) out ↔ ∃ o, out = c :: o ∧ Values word [] t o :=
  rewrites_sign_iff hword hc (splits_values_sign hc)

theorem redacts_sign_iff (hword : UnicodeWord word) {t out : List Char} {c : Char}
    (hc : c ∈ SIGNS) :
    Redacts word (c :: t) out ↔ ∃ o, out = c :: o ∧ Redacts word t o := by
  unfold Redacts
  constructor
  · rintro ⟨z, hz, ho⟩
    obtain ⟨z', rfl, hz'⟩ := (tokens_sign_iff hword hc).mp hz
    obtain ⟨o, rfl, ho'⟩ := (values_sign_iff hword hc).mp ho
    exact ⟨o, rfl, z', hz', ho'⟩
  · rintro ⟨o, rfl, z, hz, ho⟩
    exact ⟨c :: z, (tokens_sign_iff hword hc).mpr ⟨z, rfl, hz⟩,
      (values_sign_iff hword hc).mpr ⟨o, rfl, ho⟩⟩

/-- A text that is rewritten to a sign and more starts with that sign. -/
theorem rewrites_sign_back (hword : UnicodeWord word) {a b : Regex}
    {cut : List Char → Option (List Char)} {t out : List Char} {c : Char} (hc : c ∈ SIGNS)
    (hnone : ∀ t, splits word a b [] (c :: t) = [])
    (h : Rewrites word a b cut [] t (c :: out)) :
    ∃ t', t = c :: t' ∧ Rewrites word a b cut [] t' out := by
  have hhead := h.head?_eq
  cases t with
  | nil => cases hhead
  | cons d t =>
    cases hhead
    obtain ⟨o, ho, ht⟩ := (rewrites_sign_iff hword hc (hnone t)).mp h
    cases ho
    exact ⟨t, rfl, ht⟩

theorem tokens_sign_back (hword : UnicodeWord word) {t out : List Char} {c : Char} (hc : c ∈ SIGNS)
    (h : Tokens word [] t (c :: out)) : ∃ t', t = c :: t' ∧ Tokens word [] t' out :=
  rewrites_sign_back hword hc (fun _ => splits_tokens_sign hc) h

theorem values_sign_back (hword : UnicodeWord word) {t out : List Char} {c : Char} (hc : c ∈ SIGNS)
    (h : Values word [] t (c :: out)) : ∃ t', t = c :: t' ∧ Values word [] t' out :=
  rewrites_sign_back hword hc (fun _ => splits_values_sign hc) h

theorem redacts_sign_back (hword : UnicodeWord word) {t out : List Char} {c : Char} (hc : c ∈ SIGNS)
    (h : Redacts word t (c :: out)) : ∃ t', t = c :: t' ∧ Redacts word t' out := by
  obtain ⟨_, hz, hout⟩ := h
  obtain ⟨z, rfl, hz'⟩ := values_sign_back hword hc hout
  obtain ⟨t', rfl, ht'⟩ := tokens_sign_back hword hc hz
  exact ⟨t', rfl, z, ht', hz'⟩

theorem tokens_signs {q before out : List Char} (hword : UnicodeWord word)
    (hq : ∀ c ∈ q, c ∈ SIGNS) : Tokens word before q out ↔ out = q := by
  induction q generalizing before out with
  | nil => exact rewrites_nil_iff
  | cons c q ih =>
    rw [tokens_sign_iff hword (hq c (.head _))]
    simp [ih fun d hd => hq d (.tail _ hd)]

theorem values_signs {q before out : List Char} (hword : UnicodeWord word)
    (hq : ∀ c ∈ q, c ∈ SIGNS) : Values word before q out ↔ out = q := by
  induction q generalizing before out with
  | nil => exact rewrites_nil_iff
  | cons c q ih =>
    rw [values_sign_iff hword (hq c (.head _))]
    simp [ih fun d hd => hq d (.tail _ hd)]

/-! ## A comma and a quote -/

theorem tokens_comma_iff (hword : UnicodeWord word) {before s t out : List Char} :
    Tokens word before (s ++ ',' :: t) out ↔
      ∃ p q, out = p ++ ',' :: q ∧ Tokens word before s p ∧ Tokens word [] t q := by
  have hcomma : word ',' = false := hword.ascii ',' (by decide)
  have hapart : Apart word AUTH_HEAD BARE before s (',' :: t) :=
    apart_of_avoids hcomma (by decide +kernel) (by decide) before s t
  rw [Tokens, rewrites_append_iff hapart]
  simp only [tokens_sign_iff hword (c := ',') (by decide)]
  constructor
  · rintro ⟨p, _, rfl, hp, q, rfl, hq⟩
    exact ⟨p, q, rfl, hp, hq⟩
  · rintro ⟨p, q, rfl, hp, hq⟩
    exact ⟨p, _, rfl, hp, q, rfl, hq⟩

theorem texts_close {w : List Char} (hw : '"' ∉ w) (before y : List Char) :
    texts word (.seq (.many fun c => !is_quote c) (.one is_quote)) before (w ++ '"' :: y) =
      [w ++ ['"']] := by
  induction w generalizing before with
  | nil => simp [texts, results, runs, is_quote]
  | cons c w ih =>
    rw [List.mem_cons, not_or] at hw
    have hquote : is_quote c = false := beq_eq_false_iff_ne.mpr (Ne.symm hw.1)
    have hw := ih hw.2 (before ++ [c])
    rw [texts_seq, texts_many] at hw ⊢
    rw [List.cons_append, runs, hquote]
    simp only [Bool.not_false, ↓reduceIte, List.flatMap_append, List.flatMap_map]
    have htexts : ∀ b : List Char, texts word (.one is_quote) b (c :: (w ++ '"' :: y)) = [] := by
      intro b
      simp [texts, results, hquote]
    simp only [List.flatMap_singleton, List.length_nil, List.drop_zero, htexts, List.map_nil,
      List.append_nil, List.length_cons, List.drop_succ_cons, List.cons_append]
    have hmap := congrArg (List.map (List.cons c)) hw
    rw [List.map_flatMap] at hmap
    simpa [Function.comp_def] using hmap

/-- A text between quotes. -/
theorem texts_quoted {w : List Char} (hw : '"' ∉ w) (before y : List Char) :
    texts word QUOTED before ('"' :: (w ++ '"' :: y)) = ['"' :: (w ++ ['"'])] := by
  have hopen : texts word (.one is_quote) before ('"' :: (w ++ '"' :: y)) = [['"']] := rfl
  rw [QUOTED, texts_seq, hopen, List.flatMap_singleton, List.length_singleton, List.drop_succ_cons,
    List.drop_zero, texts_close hw]
  rfl

theorem texts_not_quoted {c : Char} (hc : c ≠ '"') (before t : List Char) :
    texts word QUOTED before (c :: t) = [] := by
  have hopen : texts word (.one is_quote) before (c :: t) = [] := by
    simp [texts, results, is_quote, hc]
  rw [QUOTED, texts_seq, hopen]
  rfl

theorem texts_not_closed {t : List Char} (ht : '"' ∉ t) (before : List Char) :
    texts word QUOTED before ('"' :: t) = [] := by
  rw [List.eq_nil_iff_forall_not_mem]
  intro u hu
  obtain ⟨rest, gs, hafter, hm⟩ := (mem_texts_iff word).mp hu
  unfold QUOTED at hm
  cases hm with
  | seq hopen hm =>
    cases hm with
    | seq hmid hclose =>
      cases hopen with
      | one _ _ _ =>
        cases hclose with
        | @one _ c _ _ hc =>
          simp only [is_quote, beq_iff_eq] at hc
          subst hc
          simp only [List.cons_append, List.nil_append, List.cons.injEq] at hafter
          rw [hafter.2] at ht
          simp at ht

/-- The search for a value sees the quote behind a comma, and not further. -/
theorem splits_values_stop (hword : UnicodeWord word) (before s t : List Char) :
    splits word KV_HEAD (.alt QUOTED BARE) before (s ++ ',' :: '"' :: t) =
      splits word KV_HEAD (.alt QUOTED BARE) before (s ++ [',', '"']) := by
  have hcomma : word ',' = false := hword.ascii ',' (by decide)
  have hbare : BARE.avoids ',' := by decide
  unfold splits
  rw [texts_stop hcomma (by decide +kernel), texts_stop hcomma (by decide +kernel)]
  apply List.flatMap_congr
  intro x hx
  obtain ⟨r, _, rfl, _⟩ := (mem_texts_iff word).mp hx
  rw [List.append_assoc, List.append_assoc, List.drop_left, List.drop_left, texts_alt, texts_alt,
    texts_stop hcomma hbare, texts_stop hcomma hbare]
  congr 2
  cases r with
  | nil => rw [List.nil_append, List.nil_append, texts_not_quoted (by decide),
      texts_not_quoted (by decide)]
  | cons c r =>
    by_cases hc : c = '"'
    · subst hc
      have hmem : '"' ∈ r ++ [',', '"'] := by simp
      obtain ⟨w, y, hw, hclear⟩ := List.eq_append_cons_of_mem hmem
      have hlong : r ++ ',' :: '"' :: t = w ++ '"' :: (y ++ t) := by
        have := congrArg (· ++ t) hw
        simpa using this
      rw [List.cons_append, List.cons_append, hlong, hw, texts_quoted hclear, texts_quoted hclear]
    · rw [List.cons_append, List.cons_append, texts_not_quoted hc, texts_not_quoted hc]

theorem apart_values (hword : UnicodeWord word) (before s t : List Char) :
    Apart word KV_HEAD (.alt QUOTED BARE) before (s ++ [',', '"']) t := by
  intro u₁ c u₂ hu
  rcases List.append_eq_append_iff.mp hu with ⟨r, rfl, hr⟩ | ⟨r, rfl, hr⟩
  · cases r with
    | nil =>
      rw [List.nil_append] at hr
      rw [← hr]
      exact splits_values_stop hword _ [] t
    | cons d r =>
      rw [List.cons_append, List.cons.injEq] at hr
      obtain ⟨rfl, hr⟩ := hr
      cases r with
      | nil =>
        rw [List.nil_append] at hr
        rw [← hr, List.cons_append, splits_values_sign (by decide), splits_values_sign (by decide)]
      | cons e r => simp at hr
  · rw [hr, List.append_assoc, List.cons_append, List.cons_append, List.nil_append,
      splits_values_stop hword]

theorem values_comma_iff (hword : UnicodeWord word) {before s t out : List Char} :
    Values word before (s ++ ',' :: '"' :: t) out ↔
      ∃ p q, out = p ++ q ∧ Values word before (s ++ [',', '"']) p ∧ Values word [] t q := by
  have hend : SameEnd word (before ++ (s ++ [',', '"'])) [] := by
    have := hword.sign_end (c := '"') (by decide) (before ++ (s ++ [',']))
    simpa using this
  have happ : s ++ ',' :: '"' :: t = (s ++ [',', '"']) ++ t := by simp
  rw [happ, Values, rewrites_append_iff (apart_values hword before s t)]
  constructor
  · rintro ⟨p, q, rfl, hp, hq⟩
    exact ⟨p, q, rfl, hp, hq.same_end hend⟩
  · rintro ⟨p, q, rfl, hp, hq⟩
    exact ⟨p, q, rfl, hp, hq.same_end hend.symm⟩

theorem tokens_nil_iff {before out : List Char} : Tokens word before [] out ↔ out = [] :=
  rewrites_nil_iff

theorem tokens_comma_quote_iff (hword : UnicodeWord word) {s t out : List Char} :
    Tokens word [] (s ++ ',' :: '"' :: t) out ↔
      ∃ p q, out = p ++ ',' :: '"' :: q ∧ Tokens word [] s p ∧ Tokens word [] t q := by
  rw [tokens_comma_iff hword]
  simp only [tokens_sign_iff hword (c := '"') (by decide)]
  constructor
  · rintro ⟨p, _, rfl, hp, q, rfl, hq⟩
    exact ⟨p, q, rfl, hp, hq⟩
  · rintro ⟨p, q, rfl, hp, hq⟩
    exact ⟨p, _, rfl, hp, q, rfl, hq⟩

/-- The two passes start afresh behind a comma and a quote. -/
theorem redacts_comma_iff (hword : UnicodeWord word) {s t out : List Char} :
    Redacts word (s ++ ',' :: '"' :: t) out ↔
      ∃ p q, out = p ++ q ∧ Redacts word (s ++ [',', '"']) p ∧ Redacts word t q := by
  unfold Redacts
  simp only [tokens_comma_quote_iff hword, tokens_nil_iff]
  constructor
  · rintro ⟨_, ⟨z₁, z₂, rfl, hz₁, hz₂⟩, ho⟩
    obtain ⟨p, q, rfl, hp, hq⟩ := (values_comma_iff hword).mp ho
    exact ⟨p, q, rfl, ⟨_, ⟨z₁, [], rfl, hz₁, rfl⟩, hp⟩, z₂, hz₂, hq⟩
  · rintro ⟨p, q, rfl, ⟨_, ⟨z₁, _, rfl, hz₁, rfl⟩, hp⟩, z₂, hz₂, hq⟩
    exact ⟨_, ⟨z₁, z₂, rfl, hz₁, hz₂⟩, (values_comma_iff hword).mpr ⟨p, q, rfl, hp, hq⟩⟩

end

end kaptein_core.redact
