-- Which keys a log line hides (`redact.rs`): the redactor of objects and the
-- redactor of lines have one list of sensitive keys each.
import Kaptein.RedactLine
import Mathlib.Data.List.Infix

open regex utf8 rust_str

namespace kaptein_core.redact

/-- The keys of `SENSITIVE_KEYS` that the pattern of a log line has too. -/
def LOGGED_KEYS : List String :=
  ["password", "passwd", "passphrase", "token", "api_key", "apikey", "access_key", "secret_key",
    "secret", "client_secret", "private_key", "credentials", "credential", "cookie", "session",
    "jwt", "ssh_key"]

/-- What the `regex` crate documents of its word characters: letters, digits
and `_` in ASCII, and no white space. -/
structure UnicodeWord (word : Char → Bool) : Prop where
  ascii : ∀ c, c.toNat < 128 → word c = ascii_word c
  space : ∀ c, is_whitespace c → word c = false

/-! ## The words of the key pattern -/

def two_words_texts (a b : String) : List (List Char) :=
  [a.toList ++ '_' :: b.toList, a.toList ++ '-' :: b.toList, a.toList ++ b.toList]

def KEY_TEXTS : List (List Char) :=
  ["password".toList] ++
    [["passwd".toList], ["passphrase".toList], ["token".toList], ["secret".toList],
      two_words_texts "api" "key", two_words_texts "access" "key", two_words_texts "secret" "key",
      two_words_texts "client" "secret", two_words_texts "private" "key",
      ["credentials".toList, "credential".toList], ["credential".toList],
      ["cookie".toList], ["session".toList], ["jwt".toList], two_words_texts "ssh" "key"].flatten

section

variable {word : Char → Bool}

/-- A sign of ASCII has no other case. -/
theorem fold_case_eq_iff {c d : Char} (hd : d.toNat < 97 ∨ 122 < d.toNat ∧ d.toNat < 128)
    (hlow : d.toLower = d) : Regex.fold_case c = d ↔ c = d := by
  constructor
  · intro h
    apply toLower_eq _ (by omega)
    apply Regex.toLower_of_fold_case h
    · rintro rfl
      exact absurd hd (by decide)
    · rintro rfl
      exact absurd hd (by decide)
  · rintro rfl
    exact Regex.fold_case_ascii hlow (by omega)

theorem spells_dash : Spells word DASH [['_'], ['-'], []] := by
  have hone : Spells word (.one fun c => c == '_' || c == '-') [['_'], ['-']] := by
    apply spells_one ['_', '-']
    intro c
    rw [List.mem_cons, List.mem_singleton, fold_case_eq_iff (by decide) rfl,
      fold_case_eq_iff (by decide) rfl, Bool.or_eq_true, beq_iff_eq, beq_iff_eq]
  exact hone.opt

theorem spells_two_words (a b : String) : Spells word (two_words a b) (two_words_texts a b) := by
  have ha : Spells word (.literal a) [a.toList] := spells_literal a
  have h := ha.seq (spells_dash.seq (spells_literal b))
  simpa [two_words_texts, two_words] using h

theorem spells_credentials : Spells word (.seq (.literal "credential") (.opt (.literal "s")))
    ["credentials".toList, "credential".toList] :=
  (spells_literal "credential").seq (spells_literal "s").opt

theorem spells_key : Spells word SENSITIVE_KEY_ALT KEY_TEXTS := by
  apply Spells.any_of (spells_literal "password")
  exact .cons (spells_literal _) (.cons (spells_literal _) (.cons (spells_literal _)
    (.cons (spells_literal _) (.cons (spells_two_words _ _) (.cons (spells_two_words _ _)
    (.cons (spells_two_words _ _) (.cons (spells_two_words _ _) (.cons (spells_two_words _ _)
    (.cons spells_credentials (.cons (spells_literal _) (.cons (spells_literal _)
    (.cons (spells_literal _) (.cons (spells_literal _) (.cons (spells_two_words _ _)
      .nil))))))))))))))

/-! ## A sensitive key of word characters -/

/-- A sign that is no word character is not in the key, in no case. -/
theorem UnicodeWord.sign_lower (hword : UnicodeWord word) {d : Char} (hascii : d.toNat < 97)
    (hd : ascii_word d = false) {cs : List Char} (hcs : ∀ c ∈ cs, word c) :
    d ∉ cs.map Char.toLower := by
  intro hmem
  obtain ⟨c, hc, hlow⟩ := List.mem_map.mp hmem
  have hw := hcs c hc
  rw [toLower_eq hlow (by omega), hword.ascii d (by omega), hd] at hw
  cases hw

/-- Such a key is a listed word, or it ends in an underscore and one. -/
theorem sensitive_cases (hword : UnicodeWord word) {k : String} (hk : ∀ c ∈ k.toList, word c)
    (h : is_sensitive_key k) :
    ∃ s ∈ SENSITIVE_KEYS, k.toList.map Char.toLower = s.toList ∨
      ∃ y, k.toList.map Char.toLower = y ++ '_' :: s.toList := by
  obtain ⟨s, hs, h⟩ := List.any_eq_true.mp h
  have hdot := hword.sign_lower (d := '.') (by decide) rfl hk
  have hdash := hword.sign_lower (d := '-') (by decide) rfl hk
  simp only [Bool.or_eq_true, beq_iff_eq, to_ascii_lowercase, ends_with, starts_with, contains,
    String.toList_ofList, List.isSuffixOf_iff_suffix, List.isPrefixOf_iff_prefix,
    String.toList_append, List.any_eq_true] at h
  refine ⟨s, hs, ?_⟩
  rcases h with ((((h | h) | h) | h) | h) | ⟨t, ht, h⟩
  · rw [← h, String.toList_ofList]
    exact .inl rfl
  · exact absurd (h.subset (.head _)) hdot
  · obtain ⟨y, hy⟩ := h
    exact .inr ⟨y, hy.symm⟩
  · exact absurd (h.subset (.head _)) hdash
  · exact absurd (h.subset (by simp)) hdot
  · exact absurd (((List.mem_tails _ _).mp ht).subset (h.subset (.head _))) hdot

theorem fold_of_lower {cs w : List Char} (h : cs.map Char.toLower = w)
    (hw : ∀ d ∈ w, d.toNat < 128) :
    cs.map Regex.fold_case = w := by
  subst h
  apply List.map_congr_left
  intro c hc
  exact Regex.fold_case_ascii rfl (hw _ (List.mem_map_of_mem hc))

theorem lower_of_fold {cs w : List Char} (h : cs.map Regex.fold_case = w)
    (hw : ∀ d ∈ w, d ≠ 's' ∧ d ≠ 'k') : cs.map Char.toLower = w := by
  subst h
  apply List.map_congr_left
  intro c hc
  have hne := hw _ (List.mem_map_of_mem hc)
  exact Regex.toLower_of_fold_case rfl hne.1 hne.2

theorem sensitive_keys_ascii : ∀ s ∈ SENSITIVE_KEYS, ∀ d ∈ s.toList, d.toNat < 128 := by
  have h : SENSITIVE_KEYS.all fun s => s.toList.all fun d => d.toNat < 128 := by decide +kernel
  simpa only [List.all_eq_true, decide_eq_true_eq] using h

theorem logged_keys_sensitive : ∀ s ∈ LOGGED_KEYS, s ∈ SENSITIVE_KEYS := by
  decide +kernel

/-- The words of the pattern that are sensitive keys. -/
theorem key_texts_sensitive :
    ∀ s ∈ SENSITIVE_KEYS, (s.toList ∈ KEY_TEXTS ↔ s ∈ LOGGED_KEYS) := by
  decide +kernel

/-- The words of the pattern that end in an underscore and a sensitive key. -/
theorem key_texts_suffix :
    ∀ s ∈ SENSITIVE_KEYS, ∀ w ∈ KEY_TEXTS, ('_' :: s.toList) <:+ w → String.ofList w ∈ LOGGED_KEYS ∧
      ∀ d ∈ w.take (w.length - (s.toList.length + 1)), d ≠ 's' ∧ d ≠ 'k' := by
  have h : SENSITIVE_KEYS.all fun s => KEY_TEXTS.all fun w =>
      decide (('_' :: s.toList) <:+ w → String.ofList w ∈ LOGGED_KEYS ∧
        (w.take (w.length - (s.toList.length + 1))).all fun d => d ≠ 's' ∧ d ≠ 'k') := by
    decide +kernel
  simpa only [List.all_eq_true, decide_eq_true_eq] using h

/-- The pattern has a sensitive key of word characters when the key is one
of the listed words of both. -/
theorem key_text_iff (hword : UnicodeWord word) {k : String} (hk : ∀ c ∈ k.toList, word c)
    (h : is_sensitive_key k) :
    k.toList.map Regex.fold_case ∈ KEY_TEXTS ↔ to_ascii_lowercase k ∈ LOGGED_KEYS := by
  have heq : ∀ s ∈ SENSITIVE_KEYS, k.toList.map Char.toLower = s.toList →
      (k.toList.map Regex.fold_case ∈ KEY_TEXTS ↔ to_ascii_lowercase k ∈ LOGGED_KEYS) := by
    intro s hs heq
    rw [fold_of_lower heq (sensitive_keys_ascii s hs), key_texts_sensitive s hs, to_ascii_lowercase,
      heq, String.ofList_toList]
  constructor
  · intro hmem
    obtain ⟨s, hs, hlow | ⟨y, hy⟩⟩ := sensitive_cases hword hk h
    · exact (heq s hs hlow).mp hmem
    · obtain ⟨a, b, hab, ha, hb⟩ := List.map_eq_append_iff.mp hy
      have hfold : b.map Regex.fold_case = '_' :: s.toList := by
        apply fold_of_lower hb
        intro d hd
        cases hd with
        | head => decide
        | tail _ hd => exact sensitive_keys_ascii s hs d hd
      rw [hab, List.map_append, hfold] at hmem
      obtain ⟨hlogged, hclear⟩ := key_texts_suffix s hs _ hmem (List.suffix_append _ _)
      have hlen : (a.map Regex.fold_case ++ '_' :: s.toList).length - (s.toList.length + 1) =
          (a.map Regex.fold_case).length := by
        rw [List.length_append, List.length_cons, Nat.add_sub_cancel]
      rw [hlen, List.take_left] at hclear
      rw [to_ascii_lowercase, hy, ← ha, lower_of_fold rfl hclear]
      exact hlogged
  · intro hmem
    have hs := logged_keys_sensitive _ hmem
    refine (heq _ hs ?_).mpr hmem
    rw [to_ascii_lowercase, String.toList_ofList]

/-! ## A line with one key and one value -/

/-- Word characters and spaces up to a key, the key, and a value. -/
structure KeyLine (word : Char → Bool) (p k v : List Char) : Prop where
  front : ∀ c ∈ p, word c ∨ is_whitespace c
  front_end : ∀ c ∈ p.getLast?, is_whitespace c
  key : ∀ c ∈ k, word c
  key_ne : k ≠ []
  value : ∀ c ∈ v, word c
  value_ne : v ≠ []

theorem key_texts_no_space : ∀ w ∈ KEY_TEXTS, ∀ d ∈ w, is_whitespace d = false := by
  have h : KEY_TEXTS.all fun w => w.all fun d => !is_whitespace d := by decide +kernel
  simpa only [List.all_eq_true, Bool.not_eq_true'] using h

/-- The pattern of a key takes no space. -/
theorem key_text_no_space {y : List Char} (h : y.map Regex.fold_case ∈ KEY_TEXTS) :
    ∀ c ∈ y, ¬is_whitespace c := by
  intro c hc hspace
  have hfold : Regex.fold_case c = c := by
    unfold Regex.fold_case
    split_ifs with hs hk
    · rw [hs] at hspace
      exact absurd hspace (by decide)
    · rw [hk] at hspace
      exact absurd hspace (by decide)
    · exact toLower_of_whitespace hspace
  have hno := key_texts_no_space _ h _ (List.mem_map_of_mem hc)
  rw [hfold, hspace] at hno
  cases hno

theorem matches_separator {before u rest : List Char} {gs : Captures}
    (h : Matches word SEPARATOR before u rest gs) :
    ∃ w₁ s w₂, u = w₁ ++ s :: w₂ ∧ (∀ c ∈ w₁, is_whitespace c) ∧ (s = ':' ∨ s = '=') ∧
      ∀ c ∈ w₂, is_whitespace c := by
  cases h with
  | seq hfront h =>
    cases h with
    | seq hsep hback =>
      cases hfront with
      | many _ _ hw₁ =>
        cases hsep with
        | one _ _ hs =>
          cases hback with
          | many _ _ hw₂ =>
            exact ⟨_, _, _, rfl, hw₁, by simpa using hs, hw₂⟩

/-- The head of the token pattern has a space behind its separator. -/
theorem matches_auth_head {before x rest : List Char} {gs : Captures}
    (h : Matches word AUTH_HEAD before x rest gs) :
    ∃ l s m w r, x = l ++ s :: (m ++ w :: r) ∧ (s = ':' ∨ s = '=') ∧ is_whitespace w := by
  unfold AUTH_HEAD at h
  cases h with
  | seq hbound h =>
    cases hbound
    cases h with
    | @seq _ _ _ key _ _ _ _ _ h =>
      cases h with
      | seq hsep h =>
        cases hsep with
        | group hsep =>
          obtain ⟨w₁, s, w₂, rfl, _, hs, _⟩ := matches_separator hsep
          cases h with
          | @seq _ _ _ scheme _ _ _ _ _ hspaces =>
            cases hspaces with
            | @seq _ _ _ _ r _ _ _ hspace _ =>
              cases hspace with
              | @one _ w _ _ hw => exact ⟨key ++ w₁, s, w₂ ++ scheme, w, r, by simp, hs, hw⟩

/-- The head of the value pattern: a key at a boundary, then the separator. -/
theorem matches_kv_head {before x rest : List Char} {gs : Captures}
    (h : Matches word KV_HEAD before x rest gs) :
    at_boundary word before (x ++ rest) ∧ ∃ y q w₁ s w₂, x = y ++ (q ++ (w₁ ++ s :: w₂)) ∧
      y.map Regex.fold_case ∈ KEY_TEXTS ∧ (q = [] ∨ q = ['"']) ∧ (∀ c ∈ w₁, is_whitespace c) ∧
        (s = ':' ∨ s = '=') ∧ ∀ c ∈ w₂, is_whitespace c := by
  unfold KV_HEAD at h
  cases h with
  | seq hbound h =>
    cases hbound with
    | boundary hbound =>
      cases h with
      | seq hkey h =>
        obtain ⟨hy, -⟩ := (spells_key _ _ _ _).mp hkey
        cases h with
        | seq hquote hsep =>
          cases hsep with
          | group hsep =>
            obtain ⟨w₁, s, w₂, rfl, hw₁, hs, hw₂⟩ := matches_separator hsep
            refine ⟨by simpa using hbound, _, _, w₁, s, w₂, rfl, hy, ?_, hw₁, hs, hw₂⟩
            cases hquote with
            | altl hquote =>
              cases hquote with
              | one _ _ hq => exact .inr (by simpa [is_quote] using hq)
            | altr hquote =>
              cases hquote
              exact .inl rfl

theorem UnicodeWord.sign (hword : UnicodeWord word) {d : Char} (hascii : d.toNat < 128)
    (hd : ascii_word d = false) {cs : List Char} (h : ∀ c ∈ cs, word c) : d ∉ cs := by
  intro hmem
  have := h d hmem
  rw [hword.ascii d hascii, hd] at this
  cases this

theorem UnicodeWord.no_space (hword : UnicodeWord word) {c : Char} (h : word c) :
    ¬is_whitespace c := by
  intro hspace
  rw [hword.space c hspace] at h
  cases h

/-- A sign is not in front of the separator. -/
theorem KeyLine.sign (hword : UnicodeWord word) {p k v : List Char} (h : KeyLine word p k v)
    {d : Char} (hascii : d.toNat < 128) (hd : ascii_word d = false)
    (hspace : is_whitespace d = false) : d ∉ p ++ k := by
  intro hmem
  rcases List.mem_append.mp hmem with hmem | hmem
  · rcases h.front d hmem with hw | hw
    · rw [hword.ascii d hascii, hd] at hw
      cases hw
    · rw [hspace] at hw
      cases hw
  · exact hword.sign hascii hd h.key hmem

/-- The line has one separator. -/
theorem KeyLine.separator (hword : UnicodeWord word) {p k v a b : List Char} {s : Char}
    (h : KeyLine word p k v) (hs : s = ':' ∨ s = '=') (hline : p ++ (k ++ '=' :: v) = a ++ s :: b) :
    a = p ++ k ∧ b = v := by
  rw [← List.append_assoc] at hline
  have hsplit : s ∉ p ++ k ∧ s ∉ v := by
    rcases hs with rfl | rfl
    · exact ⟨h.sign hword (by decide) rfl rfl, hword.sign (by decide) rfl h.value⟩
    · exact ⟨h.sign hword (by decide) rfl rfl, hword.sign (by decide) rfl h.value⟩
  obtain ⟨ha, -, hb⟩ := (List.append_cons_inj_of_notMem hsplit.1 hsplit.2).mp hline
  exact ⟨ha.symm, hb.symm⟩

/-- The pass for the tokens finds no match: no space follows the separator. -/
theorem KeyLine.no_token (hword : UnicodeWord word) {p k v : List Char} (h : KeyLine word p k v) :
    mask_tokens word (p ++ (k ++ '=' :: v)) = some (p ++ (k ++ '=' :: v)) := by
  apply mask_of_no_match word
  apply captures_iter_eq_nil word
  intro a u t gs hline hm
  cases hm with
  | @seq _ _ _ _ token _ _ _ hhead _ =>
    obtain ⟨l, s, m, w, r, rfl, hs, hw⟩ := matches_auth_head hhead
    have hsplit : p ++ (k ++ '=' :: v) = (a ++ l) ++ s :: (m ++ w :: (r ++ (token ++ t))) := by
      rw [hline]
      simp
    obtain ⟨-, hv⟩ := h.separator hword hs hsplit
    have hmem : w ∈ v := by
      rw [← hv]
      simp
    exact hword.no_space (h.value w hmem) hw

/-- The head of the value pattern stands at the key and nowhere else. -/
theorem KeyLine.kv_head (hword : UnicodeWord word) {p k v a x rest : List Char} {gs : Captures}
    (h : KeyLine word p k v) (hline : p ++ (k ++ '=' :: v) = a ++ (x ++ rest))
    (hm : Matches word KV_HEAD a x rest gs) :
    a = p ∧ x = k ++ ['='] ∧ rest = v ∧ k.map Regex.fold_case ∈ KEY_TEXTS := by
  obtain ⟨hbound, y, q, w₁, s, w₂, rfl, hy, hq, hw₁, hs, hw₂⟩ := matches_kv_head hm
  have hsplit : p ++ (k ++ '=' :: v) = (a ++ (y ++ (q ++ w₁))) ++ s :: (w₂ ++ rest) := by
    rw [hline]
    simp
  obtain ⟨hfront, hback⟩ := h.separator hword hs hsplit
  have hq' : q = [] := by
    rcases hq with hq | rfl
    · exact hq
    · have hno := h.sign hword (d := '"') (by decide) rfl rfl
      rw [← hfront] at hno
      simp at hno
  have hw₂' : w₂ = [] := by
    apply List.eq_nil_iff_forall_not_mem.mpr
    intro c hc
    rw [← hback] at h
    exact hword.no_space (h.value c (List.mem_append_left _ hc)) (hw₂ c hc)
  subst hq' hw₂'
  have hw₁' : w₁ = [] := by
    rcases List.eq_nil_or_concat' w₁ with hw | ⟨l, c, rfl⟩
    · exact hw
    · -- The key would end in a space.
      have hlast := congrArg List.getLast? hfront
      rw [List.nil_append, ← List.append_assoc, ← List.append_assoc, List.getLast?_concat,
        List.getLast?_append_of_ne_nil _ h.key_ne] at hlast
      have hc := h.key c (List.mem_of_getLast? hlast.symm)
      exact absurd (hw₁ c (by simp)) (hword.no_space hc)
  subst hw₁'
  simp only [List.append_nil, List.nil_append] at hfront hback hbound ⊢
  have hplace : a = p ∧ y = k := by
    rcases List.append_eq_append_iff.mp hfront with ⟨t, ht, hyt⟩ | ⟨t, ht, hkt⟩
    · rcases List.eq_nil_or_concat' t with rfl | ⟨l, c, rfl⟩
      · exact ⟨by simpa using ht.symm, hyt⟩
      · -- The pattern would take the last space in front of the key.
        have hspace := h.front_end c (by simp [ht])
        exact absurd hspace (key_text_no_space hy c (by simp [hyt]))
    · rcases List.eq_nil_or_concat' t with rfl | ⟨l, c, rfl⟩
      · exact ⟨by simpa using ht, hkt.symm⟩
      · -- The match would start inside the key, where no boundary is.
        have hc := h.key c (by simp [hkt])
        cases y with
        | nil => exact absurd hy (by decide)
        | cons e y =>
          have he := h.key e (by simp [hkt])
          rw [at_boundary, ht, ← List.append_assoc, List.getLast?_concat] at hbound
          simp [hc, he] at hbound
  obtain ⟨rfl, rfl⟩ := hplace
  have hs' : s = '=' := by
    simp only [List.append_assoc, List.append_cancel_left_eq, List.nil_append, List.cons_append,
      List.cons.injEq] at hline
    exact hline.1.symm
  subst hs'
  exact ⟨rfl, rfl, hback, hy⟩

/-- The pattern does not have the key, and the line stays. -/
theorem KeyLine.not_masked (hword : UnicodeWord word) {p k v : List Char} (h : KeyLine word p k v)
    (hkey : k.map Regex.fold_case ∉ KEY_TEXTS) :
    mask_key_values word (p ++ (k ++ '=' :: v)) = some (p ++ (k ++ '=' :: v)) := by
  apply mask_of_no_match word
  apply captures_iter_eq_nil word
  intro a u t gs hline hm
  cases hm with
  | seq hhead _ =>
    rw [List.append_assoc] at hline
    exact hkey (h.kv_head hword hline hhead).2.2.2

theorem KeyLine.boundary (hword : UnicodeWord word) {p k v : List Char} (h : KeyLine word p k v)
    (rest : List Char) : at_boundary word p (k ++ rest) := by
  have hbefore : p.getLast?.any word = false := by
    have hend := h.front_end
    cases hlast : p.getLast? with
    | none => rfl
    | some c => exact hword.space c (hend c hlast)
  unfold at_boundary
  rw [hbefore]
  cases k with
  | nil => exact absurd rfl h.key_ne
  | cons e k => simp [h.key e (.head _)]

/-- The pattern takes the key and the value. -/
theorem KeyLine.matched (hword : UnicodeWord word) {p k v : List Char} (h : KeyLine word p k v)
    (hvalue : ∀ c ∈ v, is_value_char c) (hkey : k.map Regex.fold_case ∈ KEY_TEXTS) :
    ∃ u gs, first word KV p (k ++ '=' :: v) = some (u, gs) := by
  have hsep : Matches word SEPARATOR (p ++ k) ['='] v [] :=
    .seq_plain word (u := []) (.many _ _ (by simp))
      (.seq_plain word (u := ['=']) (.one _ _ rfl) (.many (u := []) _ _ (by simp)))
  have hkey' : Matches word SENSITIVE_KEY_ALT p k ('=' :: v) [] :=
    (spells_key _ _ _ _).mpr ⟨hkey, rfl⟩
  have hbare : Matches word BARE (p ++ (k ++ ['='])) v [] [] := by
    cases v with
    | nil => exact absurd rfl h.value_ne
    | cons c v =>
      exact .seq_plain word (u := [c]) (.one _ _ (hvalue c (.head _)))
        (.many _ _ fun d hd => hvalue d (.tail _ hd))
  have hquote : Matches word (.seq (.opt (.one is_quote)) (.group 1 SEPARATOR)) (p ++ k) ['='] v
      [(1, ⟨byte_len (p ++ k), ['=']⟩)] := by
    refine .seq_plain word (u := []) (.altr (.empty _ _)) ?_
    rw [List.append_nil]
    exact .group hsep
  have hhead : Matches word KV_HEAD p (k ++ ['=']) v [(1, ⟨byte_len (p ++ k), ['=']⟩)] := by
    refine .seq_plain word (u := []) (.boundary ?_) ?_
    · simpa using h.boundary hword ('=' :: v)
    · rw [List.append_nil]
      exact .seq_plain word hkey' hquote
  have hvalue' : Matches word (.group 2 (.alt QUOTED BARE)) (p ++ (k ++ ['='])) v []
      [(2, ⟨byte_len (p ++ (k ++ ['='])), v⟩)] := .group (.altr hbare)
  rw [← List.append_nil v] at hhead
  have hall := hhead.seq hvalue'
  cases hfirst : first word KV p (k ++ '=' :: v) with
  | some m => exact ⟨m.1, m.2, rfl⟩
  | none => exact absurd hall ((first_eq_none_iff word).mp hfirst _ [] _ (by simp))

/-- The pattern has the key, and the search takes the key and the value. -/
theorem KeyLine.captures (hword : UnicodeWord word) {p k v : List Char} (h : KeyLine word p k v)
    (hkey : k.map Regex.fold_case ∈ KEY_TEXTS) :
    ∃ c, captures_iter word KV (p ++ (k ++ '=' :: v)) = [c] ∧
      c.get 2 = some ⟨byte_len (p ++ (k ++ ['='])), v⟩ := by
  have hvalue : ∀ c ∈ v, is_value_char c := by
    intro c hc
    have hcomma := ne_of_mem_of_not_mem hc (hword.sign (d := ',') (by decide) rfl h.value)
    have hsemi := ne_of_mem_of_not_mem hc (hword.sign (d := ';') (by decide) rfl h.value)
    simp [is_value_char, hcomma, hsemi, hword.no_space (h.value c hc)]
  obtain ⟨u, gs, hfirst⟩ := h.matched hword hvalue hkey
  obtain ⟨rest, hafter, _⟩ := matches_of_first word hfirst
  rw [hafter] at hfirst
  have hfound : Found word KV (p ++ (k ++ '=' :: v)) p u rest ((0, ⟨byte_len p, u⟩) :: gs) := by
    refine ⟨by rw [hafter], ?_⟩
    rw [first_group, hfirst]
    rfl
  obtain ⟨x, w, ga, gb, rfl, hhead, halt, hget⟩ := hfound.last_group word (by decide) (by decide)
  have hsplit := hfound.split
  rw [List.append_assoc] at hsplit
  obtain ⟨-, rfl, hrest, -⟩ := h.kv_head hword hsplit hhead
  have hw : w = v := by
    rcases value_cases word halt with ⟨q, rfl⟩ | ⟨hw, _⟩
    · exact absurd (hrest ▸ .head _) (hword.sign (d := '"') (by decide) rfl h.value)
    · rw [hrest, List.takeWhile_eq_self_iff.mpr hvalue] at hw
      exact hw
  subst hw
  have hrest' : rest = [] := by simpa using hrest
  subst hrest'
  refine ⟨_, ?_, hget⟩
  rw [captures_iter, captures_from_none]
  · rw [List.nil_append, hafter, captures_from_some word (by simp) hfirst]
    rfl
  · -- In front of the key there is no match.
    intro a c s u t gs hp hu hm
    rw [List.nil_append] at hm
    cases hm with
    | seq hhead _ =>
      have hline : p ++ (k ++ '=' :: w) = a ++ (c :: s ++ (k ++ '=' :: w)) := by simp [hp]
      rw [hu, List.append_assoc] at hline
      obtain ⟨rfl, -⟩ := h.kv_head hword hline hhead
      simp at hp

theorem KeyLine.masked (hword : UnicodeWord word) {p k v : List Char} (h : KeyLine word p k v)
    (hkey : k.map Regex.fold_case ∈ KEY_TEXTS) :
    mask_key_values word (p ++ (k ++ '=' :: v)) = some (p ++ (k ++ '=' :: REDACTED.toList)) := by
  obtain ⟨c, hcaptures, hget⟩ := h.captures hword hkey
  have hrange : value_range c =
      some (byte_len (p ++ (k ++ ['='])), byte_len (p ++ (k ++ ['='])) + byte_len v) := by
    rw [value_range, hget, Option.map_some, if_neg]
    · rfl
    · rintro ⟨hhead, -⟩
      exact hword.sign (d := '"') (by decide) rfl h.value (List.mem_of_head? hhead)
  have hreplace := replace_range_append (p ++ (k ++ ['='])) v [] REDACTED.toList
  rw [List.append_nil, List.append_nil] at hreplace
  have hline : p ++ (k ++ '=' :: v) = p ++ (k ++ ['=']) ++ v := by simp
  rw [mask_key_values, mask, hcaptures, List.mapM_cons, hrange, hline]
  simp only [List.mapM_nil, Option.pure_def, Option.bind_eq_bind, Option.bind_some, replace_ranges,
    List.foldr_cons, List.foldr_nil]
  rw [hreplace]
  simp

/-- The line redactor hides the value of a sensitive key, whatever it is,
when the key is one that the two lists share. The value of any other
sensitive key stays in the line. -/
theorem log_line_hides_value_iff (hword : UnicodeWord word) (front k v₁ v₂ : String)
    (hfront : ∀ c ∈ front.toList, word c ∨ is_whitespace c)
    (hend : ∀ c ∈ front.toList.getLast?, is_whitespace c)
    (hk : ∀ c ∈ k.toList, word c) (hsensitive : is_sensitive_key k)
    (hv₁ : ∀ c ∈ v₁.toList, word c) (hne₁ : v₁ ≠ "")
    (hv₂ : ∀ c ∈ v₂.toList, word c) (hne₂ : v₂ ≠ "") :
    redact_line word (front ++ k ++ "=" ++ v₁) = redact_line word (front ++ k ++ "=" ++ v₂) ↔
      v₁ = v₂ ∨ to_ascii_lowercase k ∈ LOGGED_KEYS := by
  have hkne : k.toList ≠ [] := by
    intro hnil
    have hempty : k = "" := String.toList_eq_nil_iff.mp hnil
    subst hempty
    exact absurd hsensitive (by decide +kernel)
  have hline : ∀ v : String, (∀ c ∈ v.toList, word c) → v ≠ "" →
      KeyLine word front.toList k.toList v.toList := by
    intro v hv hne
    exact ⟨hfront, hend, hk, hkne, hv, fun hnil => hne (String.toList_eq_nil_iff.mp hnil)⟩
  have hlist : ∀ v : String, (front ++ k ++ "=" ++ v).toList =
      front.toList ++ (k.toList ++ '=' :: v.toList) := by
    intro v
    simp [String.toList_append]
  have h₁ := hline v₁ hv₁ hne₁
  have h₂ := hline v₂ hv₂ hne₂
  rw [redact_line, redact_line, hlist, hlist, h₁.no_token hword, h₂.no_token hword,
    Option.bind_some, Option.bind_some]
  by_cases hkey : k.toList.map Regex.fold_case ∈ KEY_TEXTS
  · rw [h₁.masked hword hkey, h₂.masked hword hkey]
    exact ⟨fun _ => .inr ((key_text_iff hword hk hsensitive).mp hkey), fun _ => rfl⟩
  · rw [h₁.not_masked hword hkey, h₂.not_masked hword hkey]
    have hlogged : to_ascii_lowercase k ∉ LOGGED_KEYS := by
      intro hmem
      exact hkey ((key_text_iff hword hk hsensitive).mpr hmem)
    simp [hlogged]

end

theorem ascii_word_unicode : UnicodeWord ascii_word where
  ascii := fun _ _ => rfl
  space := by
    intro c h
    have h0 : '0'.toNat = 48 := rfl
    have h9 : '9'.toNat = 57 := rfl
    rw [Bool.eq_false_iff]
    intro hword
    simp only [ascii_word, Char.isAlphanum, Bool.or_eq_true, beq_iff_eq, isAlpha_iff, isUpper_iff,
      isLower_iff, Char.isDigit_iff_toNat] at hword
    simp only [is_whitespace, Bool.or_eq_true, Bool.and_eq_true, decide_eq_true_eq,
      beq_iff_eq] at h
    obtain hword | rfl := hword
    · omega
    · revert h
      decide

theorem a_shared_key_is_hidden :
    redact_line ascii_word "at 5 API_KEY=one" = redact_line ascii_word "at 5 API_KEY=two" :=
  (log_line_hides_value_iff ascii_word_unicode "at 5 " "API_KEY" "one" "two" (by simp; decide)
    (by simp; decide) (List.all_eq_true.mp (by decide)) (by decide +kernel)
    (List.all_eq_true.mp (by decide)) (by decide) (List.all_eq_true.mp (by decide)) (by decide)).mpr
    (.inr (by decide +kernel))

/-- A compound key is hidden in an object and shown in a line. -/
theorem a_compound_key_is_shown :
    ¬∀ front k v₁ v₂ : String, (∀ c ∈ front.toList, c.isAlphanum ∨ c = ' ') →
      (∀ c ∈ front.toList.getLast?, c = ' ') → (∀ c ∈ k.toList, ascii_word c) → is_sensitive_key k →
      (∀ c ∈ v₁.toList, c.isAlphanum) → v₁ ≠ "" → (∀ c ∈ v₂.toList, c.isAlphanum) → v₂ ≠ "" →
      redact_line ascii_word (front ++ k ++ "=" ++ v₁) =
        redact_line ascii_word (front ++ k ++ "=" ++ v₂) := by
  intro h
  have hdb := h "" "DB_PASSWORD" "one" "two" (by simp) (by simp) (List.all_eq_true.mp (by decide))
    (by decide +kernel) (List.all_eq_true.mp (by decide)) (by decide)
    (List.all_eq_true.mp (by decide)) (by decide)
  have hone : redact_line ascii_word "DB_PASSWORD=one" = some "DB_PASSWORD=one" := by decide +kernel
  have htwo : redact_line ascii_word "DB_PASSWORD=two" = some "DB_PASSWORD=two" := by decide +kernel
  change redact_line ascii_word "DB_PASSWORD=one" = redact_line ascii_word "DB_PASSWORD=two" at hdb
  rw [hone, htwo] at hdb
  exact absurd hdb (by decide)

end kaptein_core.redact
