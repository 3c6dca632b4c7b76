-- The JSON lines of a log (`redact_line` in `redact.rs`): the compact text of
-- an object with string members, and which of its values the redactor hides.
import Kaptein.Lib.Value
import Kaptein.LineValues
import Mathlib.Data.List.Chain

open regex utf8 rust_str serde_json

namespace kaptein_core.redact

/-! ## The text of an object -/

/-- The compact text of an object whose members are strings. -/
def json_line [FloatText] (members : List (String × String)) : String :=
  (Value.object (members.map fun p => (p.1, .string p.2))).to_string

/-- The text of a string between its quotes. -/
def escaped (s : String) : List Char := s.toList.flatMap fun c => (escape_char c).toList

theorem quoted_toList (s : String) : (quoted s).toList = '"' :: (escaped s ++ ['"']) := by
  simp [quoted, escaped, List.flatMap_map]

/-- A member from behind its first quote on. -/
def member_text (p : String × String) : List Char :=
  escaped p.1 ++ '"' :: ':' :: '"' :: (escaped p.2 ++ ['"'])

/-- The members of an object from behind the first quote on. -/
def members_text : String × String → List (String × String) → List Char
  | p, [] => member_text p ++ ['\x7d']
  | p, q :: members => member_text p ++ ',' :: '"' :: members_text q members

theorem json_line_toList [FloatText] (p : String × String) (members : List (String × String)) :
    (json_line (p :: members)).toList = '\x7b' :: '"' :: members_text p members := by
  have hmembers : (",".intercalate (Value.texts_of_members
      ((p :: members).map fun p => (p.1, .string p.2))) ++ "\x7d").toList =
        '"' :: members_text p members := by
    induction members generalizing p with
    | nil =>
      simp [Value.texts_of_members, Value.to_string, quoted_toList, members_text, member_text]
    | cons q members ih =>
      have hq := ih q
      simp only [List.map_cons, Value.texts_of_members, String.toList_append] at hq ⊢
      rw [String.intercalate_cons_cons]
      simp only [String.toList_append, List.append_assoc]
      rw [hq]
      simp [Value.to_string, quoted_toList, members_text, member_text]
  rw [json_line, Value.to_string, String.append_assoc, String.toList_append, hmembers]
  rfl

/-! ## The escapes -/

/-- Where a quote stands, a backslash is in front of it. -/
def Guarded (a b : Char) : Prop := b = '"' → a = '\\'

theorem escape_char_guarded (c : Char) : List.IsChain Guarded (',' :: (escape_char c).toList) := by
  have hdigit : ∀ n < 16, Nat.digitChar n ≠ '"' := by decide
  unfold escape_char
  split_ifs with hquote _ _ _ _ _ _ hcontrol
  iterate 7 simp [Guarded]
  · have hfirst := hdigit (c.toNat / 16) (by omega)
    have hsecond := hdigit (c.toNat % 16) (by omega)
    simp [Guarded, hfirst, hsecond]
  · simp [Guarded, hquote]

theorem escaped_guarded (s : String) : List.IsChain Guarded (',' :: escaped s) := by
  unfold escaped
  induction s.toList with
  | nil => simp
  | cons c cs ih =>
    rw [List.flatMap_cons, ← List.cons_append, List.isChain_append]
    refine ⟨escape_char_guarded c, ih.tail, ?_⟩
    intro x _ y hy hquote
    subst hquote
    cases htail : cs.flatMap fun c => (escape_char c).toList with
    | nil => simp [htail] at hy
    | cons d ds =>
      rw [htail, List.head?_cons, Option.mem_some_iff] at hy
      rw [htail, List.isChain_cons_cons] at ih
      exact absurd (ih.1 hy) (by decide)

/-- The quote behind a value is the one quote with a comma in front of it. -/
theorem escaped_comma_quote {s : String} {a b : List Char}
    (h : escaped s ++ ['"'] = a ++ ',' :: '"' :: b) : b = [] := by
  rcases List.eq_nil_or_concat' b with hb | ⟨b, d, rfl⟩
  · exact hb
  · have happ : a ++ ',' :: '"' :: (b ++ [d]) = (a ++ ',' :: '"' :: b) ++ [d] := by simp
    rw [happ] at h
    have hchain := (escaped_guarded s).tail
    rw [List.tail_cons, (List.append_inj' h rfl).1, List.isChain_append_cons_cons] at hchain
    exact absurd (hchain.2.1 rfl) (by decide)

/-! ## The members of an object -/

section

variable (word : Char → Bool)

/-- The pattern of a sensitive key has the key in full. -/
def matched_in_full (k : String) : Prop := ∃ gs, Matches word SENSITIVE_KEY_ALT [] k.toList [] gs

/-- Two members with one key. Their values differ only where it is sensitive. -/
def Alike (p q : String × String) : Prop := p.1 = q.1 ∧ (p.2 = q.2 ∨ matched_in_full word p.1)

/-- With the tokens in it masked, the text of the value has the two quotes
around it and no other one. -/
def Closes (v : String) : Prop :=
  ∃ w, TokensMasked word (quoted v).toList ('"' :: (w ++ ['"'])) ∧ '"' ∉ w

/-- Where two members differ, both values close. -/
def BothClose (p q : String × String) : Prop := p.2 = q.2 ∨ Closes word p.2 ∧ Closes word q.2

/-- Where two members differ, one of the values closes at least. -/
def OneCloses (p q : String × String) : Prop := p.2 = q.2 ∨ Closes word p.2 ∨ Closes word q.2

variable {word}

theorem matched_in_full_iff {k : String} :
    matched_in_full word k ↔ k.toList.map Regex.fold_case ∈ KEY_TEXTS := by
  constructor
  · rintro ⟨gs, h⟩
    exact ((spells_key _ _ _ _).mp h).1
  · intro h
    exact ⟨[], (spells_key _ _ _ _).mpr ⟨h, rfl⟩⟩

/-- Two such members are one, or they have a sensitive key. -/
theorem Alike.eq_or {p q : String × String} (h : Alike word p q) :
    p = q ∨ ∃ k v w, p = (k, v) ∧ q = (k, w) ∧ matched_in_full word k := by
  obtain ⟨k, v⟩ := p
  obtain ⟨k', w⟩ := q
  obtain ⟨hkey, hvalue⟩ := h
  simp only at hkey hvalue
  subst hkey
  rcases hvalue with rfl | hk
  · exact .inl rfl
  · exact .inr ⟨k, v, w, rfl, rfl, hk⟩

/-- A sensitive key has nothing to escape. -/
theorem matched_in_full_escaped {k : String} (hk : matched_in_full word k) :
    escaped k = k.toList := by
  rw [matched_in_full_iff] at hk
  have hplain : ∀ c ∈ k.toList, (escape_char c).toList = [c] := by
    intro c hc
    rcases key_text_char hk hc with rfl | rfl | halpha | rfl | rfl
    · decide
    · decide
    · have hbound := isAlpha_bounds halpha
      have hne : ∀ d : Char, d.isAlpha = false → c ≠ d := by
        rintro d hd rfl
        rw [halpha] at hd
        cases hd
      unfold escape_char
      rw [if_neg (hne _ (by decide)), if_neg (hne _ (by decide)), if_neg (hne _ (by decide)),
        if_neg (hne _ (by decide)), if_neg (hne _ (by decide)), if_neg (by omega),
        if_neg (by omega), if_neg (by omega), String.toList_ofList]
    · decide
    · decide
  unfold escaped
  rw [List.flatMap_congr hplain, List.flatMap_singleton']

theorem closes_iff (hword : UnicodeWord word) {v : String} :
    Closes word v ↔ ∃ w, Tokens word [] (escaped v ++ ['"']) (w ++ ['"']) ∧ '"' ∉ w := by
  unfold Closes
  simp only [← mask_tokens_iff, mask_tokens_rewrites, quoted_toList,
    tokens_sign_iff hword (c := '"') (by decide), List.cons.injEq, true_and, exists_eq_left']

/-- The first pass on a member with a sensitive key. -/
theorem tokens_member_iff (hword : UnicodeWord word) {k : String} (hk : matched_in_full word k)
    {t z : List Char} :
    Tokens word [] (escaped k ++ '"' :: ':' :: '"' :: t) z ↔
      ∃ y, z = escaped k ++ '"' :: ':' :: '"' :: y ∧ Tokens word [] t y := by
  rw [matched_in_full_escaped hk, tokens_key_iff hword (matched_in_full_iff.mp hk)]
  simp only [tokens_sign_iff hword (c := ':') (by decide),
    tokens_sign_iff hword (c := '"') (by decide)]
  constructor
  · rintro ⟨_, rfl, _, rfl, y, rfl, hy⟩
    exact ⟨y, rfl, hy⟩
  · rintro ⟨y, rfl, hy⟩
    exact ⟨_, rfl, _, rfl, y, rfl, hy⟩

/-- The second pass on such a member, up to the first quote in the value. -/
theorem values_member_iff (hword : LetterWord word) {k : String} (hk : matched_in_full word k)
    {w y out : List Char} (hw : '"' ∉ w) :
    Values word [] (escaped k ++ '"' :: ':' :: '"' :: (w ++ '"' :: y)) out ↔
      ∃ o, out = escaped k ++ '"' :: ':' :: '"' :: (REDACTED.toList ++ '"' :: o) ∧
        Values word [] y o := by
  rw [matched_in_full_escaped hk]
  exact values_key_iff hword (matched_in_full_iff.mp hk) hw

/-- The line of a member whose value is hidden. -/
def hidden (k : String) (e : List Char) : List Char :=
  escaped k ++ '"' :: ':' :: '"' :: (REDACTED.toList ++ '"' :: e)

/-- A value that closes is hidden. -/
theorem redacts_hidden (hword : LetterWord word) {k : String} (hk : matched_in_full word k)
    {t w e out : List Char} (ht : Tokens word [] t (w ++ '"' :: e)) (hw : '"' ∉ w)
    (he : ∀ c ∈ e, c ∈ SIGNS) :
    Redacts word (escaped k ++ '"' :: ':' :: '"' :: t) out ↔ out = hidden k e := by
  unfold Redacts hidden
  constructor
  · rintro ⟨z, hz, hout⟩
    obtain ⟨y, rfl, hy⟩ := (tokens_member_iff hword.toUnicodeWord hk).mp hz
    rw [tokens_unique hy ht, values_member_iff hword hk hw] at hout
    obtain ⟨o, rfl, ho⟩ := hout
    rw [values_signs hword.toUnicodeWord he] at ho
    rw [ho]
  · rintro rfl
    refine ⟨_, (tokens_member_iff hword.toUnicodeWord hk).mpr ⟨_, rfl, ht⟩, ?_⟩
    rw [values_member_iff hword hk hw]
    exact ⟨e, rfl, (values_signs hword.toUnicodeWord he).mpr rfl⟩

theorem mem_endings : ['"'] ∈ ENDINGS ∧ ['"', '\x7d'] ∈ ENDINGS := by
  simp [ENDINGS]

/-- What stands behind a member: the next one, or the end of the object. -/
def FOLLOWS : List (List Char) := [[',', '"'], ['\x7d']]

/-- A value that closes is hidden in its member. -/
theorem redacts_member_iff (hword : LetterWord word) {k v : String} {e out : List Char}
    (he : e ∈ FOLLOWS) (hk : matched_in_full word k) (hv : Closes word v) :
    Redacts word (member_text (k, v) ++ e) out ↔ out = hidden k e := by
  obtain ⟨w, htokens, hw⟩ := (closes_iff hword.toUnicodeWord).mp hv
  have hline : Tokens word [] (escaped v ++ '"' :: e) (w ++ '"' :: e) ∧ ∀ c ∈ e, c ∈ SIGNS := by
    simp only [FOLLOWS, List.mem_cons, List.not_mem_nil, or_false] at he
    rcases he with rfl | rfl
    · refine ⟨?_, by simp [SIGNS]⟩
      have hcomma := (tokens_comma_quote_iff hword.toUnicodeWord).mpr
        ⟨w ++ ['"'], [], rfl, htokens, .done _⟩
      simpa using hcomma
    · refine ⟨?_, by simp [SIGNS]⟩
      obtain ⟨w', ⟨hw', hall⟩ | ⟨hw', _⟩⟩ :=
        tokens_ending hword.toUnicodeWord mem_endings.1 htokens
      · rw [List.append_cancel_right_eq] at hw'
        subst hw'
        exact hall _ mem_endings.2
      · -- The mark does not end in a quote.
        have hlast := congrArg List.getLast? hw'
        rw [List.getLast?_concat, List.getLast?_append_of_ne_nil _ (by decide)] at hlast
        exact absurd hlast (by decide)
  have htext : member_text (k, v) ++ e =
      escaped k ++ '"' :: ':' :: '"' :: (escaped v ++ '"' :: e) := by simp [member_text]
  rw [htext]
  exact redacts_hidden hword hk hline.1 hw hline.2

theorem redacts_member_same (hword : LetterWord word) {p q : String × String} {e out : List Char}
    (he : e ∈ FOLLOWS) (hpq : Alike word p q) (hclose : BothClose word p q) :
    Redacts word (member_text p ++ e) out ↔ Redacts word (member_text q ++ e) out := by
  rcases hpq.eq_or with rfl | ⟨k, v, w, rfl, rfl, hk⟩
  · exact Iff.rfl
  · rcases hclose with hsame | ⟨hv, hw⟩
    · simp only at hsame
      rw [hsame]
    · rw [redacts_member_iff hword he hk hv, redacts_member_iff hword he hk hw]

/-- Members whose differing values close are redacted to one text. -/
theorem redacts_same (hword : LetterWord word) {p q : String × String}
    {ps qs : List (String × String)} (hpq : Alike word p q) (hclose : BothClose word p q)
    (halike : List.Forall₂ (Alike word) ps qs) (hcloses : List.Forall₂ (BothClose word) ps qs)
    {out : List Char} :
    Redacts word (members_text p ps) out ↔ Redacts word (members_text q qs) out := by
  induction halike generalizing p q out with
  | nil => exact redacts_member_same hword (by simp [FOLLOWS]) hpq hclose
  | cons hnext _ ih =>
    have hcomma : [',', '"'] ∈ FOLLOWS := by simp [FOLLOWS]
    cases hcloses with
    | cons hclose' hcloses =>
      rw [members_text, members_text, redacts_comma_iff hword.toUnicodeWord,
        redacts_comma_iff hword.toUnicodeWord]
      simp only [redacts_member_same hword hcomma hpq hclose, ih hnext hclose' hcloses]

/-! ## A value that does not close -/

/-- A line of members that starts with a comma and a quote has a comma for its
first key. -/
theorem members_front (hword : UnicodeWord word) {p : String × String}
    {ps : List (String × String)} {out : List Char}
    (h : Redacts word (members_text p ps) (',' :: '"' :: out)) : escaped p.1 = [','] := by
  obtain ⟨t, ht, h⟩ := redacts_sign_back hword (by decide) h
  obtain ⟨t', rfl, _⟩ := redacts_sign_back hword (by decide) h
  have hfront : ∃ r, members_text p ps = escaped p.1 ++ '"' :: r := by
    cases ps <;> exact ⟨_, by rw [members_text, member_text, List.append_assoc]; rfl⟩
  obtain ⟨r, hr⟩ := hfront
  rw [hr] at ht
  cases hkey : escaped p.1 with
  | nil =>
    rw [hkey] at ht
    cases ht
  | cons c u =>
    rw [hkey, List.cons_append, List.cons.injEq] at ht
    obtain ⟨rfl, ht⟩ := ht
    cases u with
    | nil => rfl
    | cons d u =>
      rw [List.cons_append, List.cons.injEq] at ht
      have hchain := (escaped_guarded p.1).tail
      rw [List.tail_cons, hkey, List.isChain_cons_cons] at hchain
      exact absurd (hchain.1 ht.1) (by decide)

theorem members_colon (hword : UnicodeWord word) {p : String × String}
    {ps : List (String × String)} {out : List Char} (hkey : escaped p.1 = [','])
    (h : Redacts word (members_text p ps) out) : ∃ o, out = ',' :: '"' :: ':' :: o := by
  have hfront : ∃ r, members_text p ps = ',' :: '"' :: ':' :: r := by
    cases ps <;> exact ⟨_, by rw [members_text, member_text, hkey]; rfl⟩
  obtain ⟨r, hr⟩ := hfront
  rw [hr, redacts_sign_iff hword (by decide)] at h
  obtain ⟨o₁, rfl, h₁⟩ := h
  obtain ⟨o₂, rfl, h₂⟩ := (redacts_sign_iff hword (by decide)).mp h₁
  obtain ⟨o, rfl, _⟩ := (redacts_sign_iff hword (by decide)).mp h₂
  exact ⟨o, rfl⟩

theorem members_apart (hword : UnicodeWord word) {p q : String × String}
    {ps qs : List (String × String)} (hkey : p.1 = q.1) {b b' : List Char}
    (hb : Redacts word (members_text p ps) b) (hb' : Redacts word (members_text q qs) b') :
    b ≠ ',' :: '"' :: b' := by
  rintro rfl
  have hcomma := members_front hword hb
  obtain ⟨o, ho⟩ := members_colon hword hcomma hb
  rw [hkey] at hcomma
  obtain ⟨o', rfl⟩ := members_colon hword hcomma hb'
  simp at ho

/-- A member of a sensitive key is hidden up to the first quote that the first
pass leaves in its value. What stands behind that quote goes through the second pass. -/
theorem redacts_member_cases (hword : LetterWord word) {k : String} (hk : matched_in_full word k)
    {t out : List Char} (h : Redacts word (escaped k ++ '"' :: ':' :: '"' :: t) out) :
    ∃ z, Tokens word [] t z ∧ ((∃ w y o, z = w ++ '"' :: y ∧ '"' ∉ w ∧ out = hidden k o ∧
      Values word [] y o) ∨ '"' ∉ z ∧ ∀ o, out ≠ hidden k o) := by
  obtain ⟨line, hline, hout⟩ := h
  obtain ⟨z, rfl, hz⟩ := (tokens_member_iff hword.toUnicodeWord hk).mp hline
  refine ⟨z, hz, ?_⟩
  by_cases hmem : '"' ∈ z
  · obtain ⟨w, y, rfl, hw⟩ := List.eq_append_cons_of_mem hmem
    obtain ⟨o, rfl, ho⟩ := (values_member_iff hword hk hw).mp hout
    exact .inl ⟨w, y, o, rfl, hw, rfl, ho⟩
  · -- The value runs over the end of the line, and no quote is left of it.
    rw [matched_in_full_escaped hk] at hout
    obtain ⟨o, rfl⟩ := values_key_open hword (matched_in_full_iff.mp hk) hmem hout
    refine .inr ⟨hmem, fun o' heq => ?_⟩
    rw [hidden, matched_in_full_escaped hk, List.append_cancel_left_eq] at heq
    exact absurd heq (by simp [REDACTED])

/-- The last value closes when it is hidden. -/
theorem last_closes (hword : LetterWord word) {k v : String} (hk : matched_in_full word k)
    (h : Redacts word (member_text (k, v) ++ ['\x7d']) (hidden k ['\x7d'])) : Closes word v := by
  have happ : member_text (k, v) ++ ['\x7d'] =
      escaped k ++ '"' :: ':' :: '"' :: (escaped v ++ ['"', '\x7d']) := by simp [member_text]
  rw [happ] at h
  obtain ⟨z, hz, ⟨w, y, o, rfl, hw, hout, ho⟩ | ⟨_, hout⟩⟩ :=
    redacts_member_cases hword hk h
  · have hclose : o = ['\x7d'] := by simpa [hidden] using hout.symm
    subst hclose
    obtain ⟨y', rfl, hy'⟩ := values_sign_back hword.toUnicodeWord (by decide) ho
    have hnil : y' = [] := by
      have := hy'.head?_eq
      simpa using this.symm
    subst hnil
    obtain ⟨w', ⟨hw', hall⟩ | ⟨hw', _⟩⟩ :=
      tokens_ending hword.toUnicodeWord mem_endings.2 hz
    · rw [List.append_cancel_right_eq] at hw'
      subst hw'
      exact (closes_iff hword.toUnicodeWord).mpr ⟨w, hall _ mem_endings.1, hw⟩
    · -- The mark does not end in a brace.
      have hlast := congrArg List.getLast? hw'
      rw [List.getLast?_append_of_ne_nil _ (by simp),
        List.getLast?_append_of_ne_nil _ (by decide)] at hlast
      exact absurd hlast (by decide)
  · exact absurd rfl (hout _)

/-- In the text of a value, only the quote behind it has a comma in front. -/
theorem tokens_comma_quote (hword : UnicodeWord word) {v : String} {u w y : List Char}
    (hu : Tokens word [] (escaped v ++ ['"']) u)
    (h : u ++ [',', '"'] = w ++ '"' :: ',' :: '"' :: y) : u = w ++ ['"'] ∨ y = [',', '"'] := by
  have happ : w ++ '"' :: ',' :: '"' :: y = (w ++ ['"']) ++ ',' :: '"' :: y := by simp
  rw [happ] at h
  rcases List.append_eq_append_iff.mp h with ⟨r, hr, hy⟩ | ⟨r, hr, hy⟩
  · have hlen := congrArg List.length hy
    simp only [List.length_cons, List.length_append, List.length_nil] at hlen
    have hnil : r = [] := List.length_eq_zero_iff.mp (by omega)
    rw [hnil, List.append_nil] at hr
    exact .inl hr.symm
  · match r with
    | [] => exact .inl (by simpa using hr)
    | [c] => simp at hy
    | c :: d :: r =>
      simp only [List.cons_append, List.cons.injEq] at hy
      obtain ⟨rfl, rfl, rfl⟩ := hy
      subst hr
      obtain ⟨s, t, hs, ht⟩ := tokens_comma_back hword hu
      obtain ⟨t', rfl, ht'⟩ := tokens_sign_back hword (by decide) ht
      rw [escaped_comma_quote hs] at ht'
      rw [tokens_nil_iff.mp ht']
      exact .inr rfl

/-- A value in front of other members closes when the line goes on as behind a
hidden one. -/
theorem member_closes (hword : LetterWord word) {k v : String} (hk : matched_in_full word k)
    {p q : String × String} {ps qs : List (String × String)} (hkey : p.1 = q.1)
    {a b b' : List Char} (ha : Redacts word (member_text (k, v) ++ [',', '"']) a)
    (hb : Redacts word (members_text p ps) b) (hb' : Redacts word (members_text q qs) b')
    (hsame : a ++ b = hidden k [',', '"'] ++ b') : Closes word v := by
  have hw := hword.toUnicodeWord
  have happ : member_text (k, v) ++ [',', '"'] =
      escaped k ++ '"' :: ':' :: '"' :: ((escaped v ++ ['"']) ++ ',' :: '"' :: []) := by
    simp [member_text]
  rw [happ] at ha
  obtain ⟨z, hz, hcases⟩ := redacts_member_cases hword hk ha
  obtain ⟨u, _, rfl, hu, hnil⟩ := (tokens_comma_quote_iff hw).mp hz
  rw [tokens_nil_iff.mp hnil] at hcases
  rcases hcases with ⟨w, y, o, hz, hclear, rfl, ho⟩ | ⟨hno, _⟩
  · have hrest : o ++ b = ',' :: '"' :: b' := by simpa [hidden] using hsame
    cases o with
    | nil => exact absurd hrest (members_apart hw hkey hb hb')
    | cons c o =>
      rw [List.cons_append, List.cons.injEq] at hrest
      obtain ⟨rfl, hrest⟩ := hrest
      obtain ⟨y₁, rfl, ho₁⟩ := values_sign_back hw (by decide) ho
      cases o with
      | nil =>
        -- The text of the member ends in a quote.
        have hnil : y₁ = [] := by
          have := ho₁.head?_eq
          simpa using this.symm
        subst hnil
        have hlast := congrArg List.getLast? hz
        simp at hlast
      | cons d o =>
        rw [List.cons_append, List.cons.injEq] at hrest
        obtain ⟨rfl, rfl⟩ := hrest
        obtain ⟨y₂, rfl, ho₂⟩ := values_sign_back hw (by decide) ho₁
        rcases tokens_comma_quote hw hu hz with rfl | rfl
        · exact (closes_iff hw).mpr ⟨w, hu, hclear⟩
        · -- One comma and quote more would make the next key a comma.
          rw [values_signs hw (by simp [SIGNS])] at ho₂
          subst ho₂
          exact absurd rfl (members_apart hw hkey.symm hb' hb)
  · exact absurd (by simp) hno

/-- Where the two objects are redacted to one text and no member has two
values that do not close, the differing values close. -/
theorem closes_of_same (hword : LetterWord word) {p q : String × String}
    {ps qs : List (String × String)} (hpq : Alike word p q) (hone : OneCloses word p q)
    (halike : List.Forall₂ (Alike word) ps qs) (hones : List.Forall₂ (OneCloses word) ps qs)
    {out : List Char} (h : Redacts word (members_text p ps) out)
    (h' : Redacts word (members_text q qs) out) :
    List.Forall₂ (BothClose word) (p :: ps) (q :: qs) := by
  induction halike generalizing p q out with
  | nil =>
    refine .cons ?_ .nil
    rcases hpq.eq_or with rfl | ⟨k, v, w, rfl, rfl, hk⟩
    · exact .inl rfl
    · have hlast : ['\x7d'] ∈ FOLLOWS := by simp [FOLLOWS]
      rw [members_text] at h h'
      rcases hone with hsame | hv | hw
      · exact .inl hsame
      · rw [(redacts_member_iff hword hlast hk hv).mp h] at h'
        exact .inr ⟨hv, last_closes hword hk h'⟩
      · rw [(redacts_member_iff hword hlast hk hw).mp h'] at h
        exact .inr ⟨last_closes hword hk h, hw⟩
  | @cons p' q' ps qs hnext halike ih =>
    have hcomma : [',', '"'] ∈ FOLLOWS := by simp [FOLLOWS]
    cases hones with
    | cons hone' hones =>
      rw [members_text, redacts_comma_iff hword.toUnicodeWord] at h h'
      obtain ⟨a, b, rfl, ha, hb⟩ := h
      obtain ⟨a', b', heq, ha', hb'⟩ := h'
      have hclose : BothClose word p q := by
        rcases hpq.eq_or with rfl | ⟨k, v, w, rfl, rfl, hk⟩
        · exact .inl rfl
        · rcases hone with hsame | hv | hw
          · exact .inl hsame
          · rw [(redacts_member_iff hword hcomma hk hv).mp ha] at heq
            exact .inr ⟨hv, member_closes hword hk hnext.1.symm ha' hb' hb heq.symm⟩
          · rw [(redacts_member_iff hword hcomma hk hw).mp ha'] at heq
            exact .inr ⟨member_closes hword hk hnext.1 ha hb hb' heq, hw⟩
      have hsame := redacts_unique ((redacts_member_same hword hcomma hpq hclose).mp ha) ha'
      rw [hsame, List.append_cancel_left_eq] at heq
      subst heq
      exact .cons hclose (ih hnext hone' hones hb hb')

/-! ## The lines of two objects -/

theorem json_line_redacts [FloatText] (hword : UnicodeWord word) {p : String × String}
    {members : List (String × String)} {out : String} :
    redact_line word (json_line (p :: members)) = some out ↔
      ∃ o, out.toList = '\x7b' :: '"' :: o ∧ Redacts word (members_text p members) o := by
  rw [redact_line_iff, json_line_toList, redacts_sign_iff hword (by decide)]
  simp only [redacts_sign_iff hword (c := '"') (by decide)]
  constructor
  · rintro ⟨_, hout, o, rfl, ho⟩
    exact ⟨o, hout, ho⟩
  · rintro ⟨o, hout, ho⟩
    exact ⟨_, hout, o, rfl, ho⟩

/-- Two objects that differ in the values of sensitive keys only. Their lines are
redacted to one text when every value they differ in closes, and the line has no
lone quote, at which the function panics. Of values that do not close, only two in
one member can leave the text the same. -/
theorem json_lines_are_masked [FloatText] (hword : LetterWord word)
    {m n : List (String × String)} (halike : List.Forall₂ (Alike word) m n) :
    (List.Forall₂ (BothClose word) m n ∧
        (∀ out, TokensMasked word (json_line n).toList out → ¬HasLoneQuote word out) →
      ∃ out, redact_line word (json_line m) = some out ∧
        redact_line word (json_line n) = some out) ∧
    (List.Forall₂ (OneCloses word) m n →
      (∃ out, redact_line word (json_line m) = some out ∧
        redact_line word (json_line n) = some out) →
      List.Forall₂ (BothClose word) m n ∧
        ∀ out, TokensMasked word (json_line n).toList out → ¬HasLoneQuote word out) := by
  rw [← redact_line_returns_iff]
  cases halike with
  | nil => simp
  | @cons p q ps qs hpq halike =>
    constructor
    · rintro ⟨hcloses, out, h'⟩
      obtain ⟨o, ho, hq⟩ := (json_line_redacts hword.toUnicodeWord).mp h'
      cases hcloses with
      | cons hclose hcloses =>
        have hp := (redacts_same hword hpq hclose halike hcloses).mpr hq
        exact ⟨out, (json_line_redacts hword.toUnicodeWord).mpr ⟨o, ho, hp⟩, h'⟩
    · rintro hones ⟨out, h, h'⟩
      obtain ⟨o, ho, hp⟩ := (json_line_redacts hword.toUnicodeWord).mp h
      obtain ⟨o', ho', hq⟩ := (json_line_redacts hword.toUnicodeWord).mp h'
      rw [ho] at ho'
      cases ho'
      cases hones with
      | cons hone hones =>
        exact ⟨closes_of_same hword hpq hone halike hones hp hq, out, h'⟩

end

/-- The word characters of ASCII, and the two letters that fold to such. -/
def letter_word (c : Char) : Bool := ascii_word c || c == '\u017f' || c == '\u212a'

theorem letter_word_eq {c : Char} (hs : c ≠ '\u017f') (hk : c ≠ '\u212a') :
    letter_word c = ascii_word c := by
  rw [letter_word, beq_eq_false_iff_ne.mpr hs, beq_eq_false_iff_ne.mpr hk]
  simp

theorem letter_word_letters : LetterWord letter_word where
  ascii := by
    intro c hc
    apply letter_word_eq
    · rintro rfl
      exact absurd hc (by decide)
    · rintro rfl
      exact absurd hc (by decide)
  space := by
    intro c hc
    rw [← ascii_word_unicode.space c hc]
    apply letter_word_eq
    · rintro rfl
      exact absurd hc (by decide)
    · rintro rfl
      exact absurd hc (by decide)
  long_s := by decide
  kelvin := by decide

/-- No member of these lines is a number. -/
abbrev no_floats : FloatText := ⟨fun _ => ""⟩

example : @json_line no_floats [("password", "a\"b"), ("user", "me")] =
    "\x7b\"password\":\"a\\\"b\",\"user\":\"me\"\x7d" := by decide +kernel

theorem matched_password : matched_in_full letter_word "password" :=
  matched_in_full_iff.mpr (by decide +kernel)

theorem closes_of_mask {v : String} {w : List Char}
    (h : mask_tokens letter_word (quoted v).toList = some ('"' :: (w ++ ['"']))) (hw : '"' ∉ w) :
    Closes letter_word v :=
  ⟨w, (mask_tokens_iff letter_word _ _).mp h, hw⟩

/-- A backslash, a space, a comma or a brace in a value does no harm. -/
theorem a_plain_value_is_hidden :
    ∃ out, redact_line letter_word (@json_line no_floats [("password", "a, \x7b\\")]) = some out ∧
      redact_line letter_word (@json_line no_floats [("password", "b")]) = some out := by
  have hfirst : Closes letter_word "a, \x7b\\" :=
    closes_of_mask (w := "a, \x7b\\\\".toList) (by decide +kernel) (by decide)
  have hsecond : Closes letter_word "b" :=
    closes_of_mask (w := "b".toList) (by decide +kernel) (by decide)
  have hreturns : ∃ out, redact_line letter_word (@json_line no_floats [("password", "b")]) =
      some out := ⟨"\x7b\"password\":\"[REDACTED]\"\x7d", by decide +kernel⟩
  have hmasked := @json_lines_are_masked letter_word no_floats letter_word_letters
    [("password", "a, \x7b\\")] [("password", "b")] (.cons ⟨rfl, .inr matched_password⟩ .nil)
  rw [redact_line_returns_iff] at hreturns
  exact hmasked.1 ⟨.cons (.inr ⟨hfirst, hsecond⟩) .nil, hreturns⟩

/-- A quote in a value ends it for the redactor, and the rest of it is shown. -/
theorem a_quote_is_the_end_of_a_value :
    ¬∀ m n : List (String × String), List.Forall₂ (Alike letter_word) m n →
      redact_line letter_word (@json_line no_floats m) =
        redact_line letter_word (@json_line no_floats n) := by
  intro h
  have hsame := h [("password", "a\"b")] [("password", "c")]
    (.cons ⟨rfl, .inr matched_password⟩ .nil)
  have hleak : redact_line letter_word (@json_line no_floats [("password", "a\"b")]) =
      some "\x7b\"password\":\"[REDACTED]\"b\"\x7d" := by decide +kernel
  have hhidden : redact_line letter_word (@json_line no_floats [("password", "c")]) =
      some "\x7b\"password\":\"[REDACTED]\"\x7d" := by decide +kernel
  rw [hleak, hhidden] at hsame
  exact absurd hsame (by decide)

end kaptein_core.redact
