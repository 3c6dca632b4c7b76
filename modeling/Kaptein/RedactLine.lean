-- The redaction of a log line (`redact_line` in `redact.rs`): the token after
-- an authorization scheme first, and then the value after a sensitive key.
import Kaptein.Lib.Regex
import Kaptein.Redact

open regex utf8 rust_str

namespace kaptein_core.redact

/-! ## The patterns -/

def is_quote (c : Char) : Bool := c == '"'

/-- `[^\s,;]`. -/
def is_value_char (c : Char) : Bool := !(is_whitespace c || c == ',' || c == ';')

/-- `[_-]?`. -/
def DASH : Regex := .opt (.one fun c => c == '_' || c == '-')

def two_words (a b : String) : Regex := .seq (.literal a) (.seq DASH (.literal b))

/-- `\s*[:=]\s*`. -/
def SEPARATOR : Regex :=
  .seq (.many is_whitespace) (.seq (.one fun c => c == ':' || c == '=') (.many is_whitespace))

/-- `[^\s,;]+`. -/
def BARE : Regex := .some_of is_value_char

/-- `"[^"]*"`. -/
def QUOTED : Regex := .seq (.one is_quote) (.seq (.many fun c => !is_quote c) (.one is_quote))

/-- The pattern of `AUTH` up to the group of the token. -/
def AUTH_HEAD : Regex :=
  .seq .boundary
    (.seq (.group 1 (.any_of (.literal "authorization") [two_words "auth" "token"]))
      (.seq (.group 2 SEPARATOR)
        (.seq (.group 3 (.any_of (.literal "bearer") [.literal "basic"]))
          (.some_of is_whitespace))))

def AUTH : Regex := .seq AUTH_HEAD (.group 4 BARE)

def SENSITIVE_KEY_ALT : Regex :=
  .any_of (.literal "password")
    [.literal "passwd", .literal "passphrase", .literal "token", .literal "secret",
      two_words "api" "key", two_words "access" "key", two_words "secret" "key",
      two_words "client" "secret", two_words "private" "key",
      .seq (.literal "credential") (.opt (.literal "s")), .literal "credential",
      .literal "cookie", .literal "session", .literal "jwt", two_words "ssh" "key"]

/-- The pattern of `KV` up to the group of the value. -/
def KV_HEAD : Regex :=
  .seq .boundary (.seq SENSITIVE_KEY_ALT (.seq (.opt (.one is_quote)) (.group 1 SEPARATOR)))

def KV : Regex := .seq KV_HEAD (.group 2 (.alt QUOTED BARE))

/-! ## The function -/

/-- The range of the token. Here `none` is the panic of `expect`. -/
def token_range (c : Captures) : Option (Nat × Nat) := (c.get 4).map fun v => (v.start, v.end_)

/-- The range of the value, without the quotes around it. -/
def value_range (c : Captures) : Option (Nat × Nat) :=
  (c.get 2).map fun v =>
    if v.text.head? = some '"' ∧ v.text.getLast? = some '"' then (v.start + 1, v.end_ - 1)
    else (v.start, v.end_)

section

-- The word characters of the `regex` crate.
variable (word : Char → Bool)

/-- One pass over the line: the ranges of all matches, and then the mark
for each of them, from the right. -/
def mask (r : Regex) (range : Captures → Option (Nat × Nat)) (line : List Char) :
    Option (List Char) :=
  ((captures_iter word r line).mapM range).bind fun ranges =>
    replace_ranges ranges REDACTED.toList line

def mask_tokens (line : List Char) : Option (List Char) := mask word AUTH token_range line

def mask_key_values (line : List Char) : Option (List Char) := mask word KV value_range line

/-- `redact_line`, or `none` when it panics. -/
def redact_line (line : String) : Option String :=
  ((mask_tokens word line.toList).bind (mask_key_values word)).map String.ofList

/-! ## What the matches look like -/

/-- A token is found with its place in the line. -/
theorem token_range_found {line b u t : List Char} {c : Captures}
    (h : Found word AUTH line b u t c) :
    ∃ x v y, u = x ++ (v ++ y) ∧
      token_range c = some (byte_len (b ++ x), byte_len (b ++ x) + byte_len v) := by
  obtain ⟨x, v, _, _, hu, _, _, hget⟩ := h.last_group word (by decide) (by decide)
  refine ⟨x, v, [], by simpa using hu, ?_⟩
  rw [token_range, hget]
  rfl

/-- A pass that finds its part in every match does not fail. -/
theorem mask_found {r : Regex} {range : Captures → Option (Nat × Nat)} {line : List Char}
    (h : ∀ b u t c, c ∈ captures_iter word r line → Found word r line b u t c →
      ∃ x v y, u = x ++ (v ++ y) ∧
        range c = some (byte_len (b ++ x), byte_len (b ++ x) + byte_len v)) :
    ∃ ranges out, (captures_iter word r line).mapM range = some ranges ∧
      Masks REDACTED.toList 0 line ranges out ∧ mask word r range line = some out := by
  obtain ⟨ranges, out, hranges, hmasks⟩ := captures_masks word range REDACTED.toList h
  refine ⟨ranges, out, hranges, hmasks, ?_⟩
  have hreplace := replace_ranges_masks hmasks [] rfl
  rw [mask, hranges]
  exact hreplace

theorem mask_of_no_match {r : Regex} (range : Captures → Option (Nat × Nat)) {line : List Char}
    (h : captures_iter word r line = []) : mask word r range line = some line := by
  rw [mask, h]
  rfl

/-- The line with the mark in the place of every token. -/
def TokensMasked (line out : List Char) : Prop :=
  ∃ ranges, (captures_iter word AUTH line).mapM token_range = some ranges ∧
    Masks REDACTED.toList 0 line ranges out

/-- The first pass never fails. -/
theorem tokens_masked (line : List Char) :
    ∃ ranges out, (captures_iter word AUTH line).mapM token_range = some ranges ∧
      Masks REDACTED.toList 0 line ranges out ∧ mask_tokens word line = some out :=
  mask_found word fun _ _ _ _ _ h => token_range_found word h

theorem mask_tokens_iff (line out : List Char) :
    mask_tokens word line = some out ↔ TokensMasked word line out := by
  obtain ⟨ranges, out', hranges, hmasks, hout'⟩ := tokens_masked word line
  constructor
  · intro hout
    rw [hout', Option.some.injEq] at hout
    subst hout
    exact ⟨ranges, hranges, hmasks⟩
  · rintro ⟨rs, hrs, hrsmasks⟩
    have hreplace := replace_ranges_masks hrsmasks [] rfl
    rw [mask_tokens, mask, hrs]
    exact hreplace

/-- A value is a text between two quotes. Or it goes on to the next space,
comma or semicolon, and a quote at its front is not closed in the line. -/
theorem value_cases {before after v : List Char} {gs : Captures}
    (h : first word (.alt QUOTED BARE) before after = some (v, gs)) :
    (∃ w, v = '"' :: (w ++ ['"'])) ∨
      (v = after.takeWhile is_value_char ∧ ∀ t, after = '"' :: t → '"' ∉ t) := by
  rw [first_alt, Option.or_eq_some_iff] at h
  rcases h with h | ⟨hnone, h⟩
  · obtain ⟨rest, _, hm⟩ := matches_of_first word h
    unfold QUOTED at hm
    cases hm with
    | seq hopen hm =>
      cases hm with
      | seq hmid hclose =>
        cases hopen with
        | one _ _ hq =>
          cases hclose with
          | one _ _ hq' =>
            simp only [is_quote, beq_iff_eq] at hq hq'
            subst hq hq'
            exact .inl ⟨_, rfl⟩
  · refine .inr ⟨first_some_of word h, ?_⟩
    rintro t rfl hmem
    obtain ⟨w, d, rfl, hw⟩ := List.eq_append_cons_of_mem hmem
    have hclear : ∀ c ∈ w, (!is_quote c) = true := by
      intro c hc
      rw [Bool.not_eq_true', is_quote, beq_eq_false_iff_ne]
      exact ne_of_mem_of_not_mem hc hw
    refine (first_eq_none_iff word).mp hnone ('"' :: (w ++ ['"'])) d _ (by simp)
      (.seq (u := ['"']) (.one before _ rfl) (.seq (u := w) (.many _ _ hclear) (.one _ d rfl)))

/-! ## A quote that nothing closes -/

/-- A value of the line is a quote and nothing more: the line has no other
quote after it, and it ends there or goes on with a space, a comma or a
semicolon. -/
def HasLoneQuote (line : List Char) : Prop :=
  ∃ c v before after, c ∈ captures_iter word KV line ∧ c.get 2 = some v ∧
    line = before ++ '"' :: after ∧ byte_len before = v.start ∧ '"' ∉ after ∧
      ∀ d ∈ after.head?, is_value_char d = false

theorem value_found {line b u t : List Char} {c : Captures} (h : Found word KV line b u t c) :
    ∃ x v gb, u = x ++ v ∧ first word (.alt QUOTED BARE) (b ++ x) (v ++ t) = some (v, gb) ∧
      c.get 2 = some ⟨byte_len (b ++ x), v⟩ := by
  obtain ⟨x, v, _, gb, hu, _, hfirst, hget⟩ := h.last_group word (by decide) (by decide)
  exact ⟨x, v, gb, hu, hfirst, hget⟩

/-- The text of the value says whether its quote stands alone. -/
theorem text_eq_quote_iff {p t v : List Char} {gs : Captures}
    (h : first word (.alt QUOTED BARE) p (v ++ t) = some (v, gs)) :
    v = ['"'] ↔ ∃ after, v ++ t = '"' :: after ∧ '"' ∉ after ∧
      ∀ d ∈ after.head?, is_value_char d = false := by
  have hquote : is_value_char '"' = true := by decide
  rcases value_cases word h with ⟨w, rfl⟩ | ⟨hv, hopen⟩
  · -- A closed value is no lone quote, and its second quote is in the line.
    constructor
    · intro hw
      simp at hw
    · rintro ⟨after, hafter, hno, _⟩
      rw [List.cons_append, List.cons.injEq] at hafter
      rw [← hafter.2] at hno
      simp at hno
  · constructor
    · rintro rfl
      refine ⟨t, rfl, hopen t rfl, ?_⟩
      intro d hd
      cases t with
      | nil => cases hd
      | cons e t =>
        cases hd
        rw [List.singleton_append, List.takeWhile_cons, if_pos hquote, List.cons.injEq] at hv
        have hstop := List.takeWhile_eq_nil_iff.mp hv.2.symm (Nat.zero_lt_succ _)
        simpa using hstop
    · rintro ⟨after, hafter, _, hstop⟩
      rw [hv, hafter, List.takeWhile_cons, if_pos hquote]
      cases after with
      | nil => rfl
      | cons e after => simp [hstop e rfl]

/-- Without a lone quote, the value is found with its place in the line. -/
theorem value_range_found {line b u t : List Char} {c : Captures} (h : Found word KV line b u t c)
    (hlone : ∀ v, c.get 2 = some v → v.text ≠ ['"']) :
    ∃ x v y, u = x ++ (v ++ y) ∧
      value_range c = some (byte_len (b ++ x), byte_len (b ++ x) + byte_len v) := by
  obtain ⟨x, v, gb, rfl, hfirst, hget⟩ := value_found word h
  have hne : v ≠ ['"'] := hlone _ hget
  unfold value_range
  rw [hget, Option.map_some]
  rcases value_cases word hfirst with ⟨w, rfl⟩ | ⟨hv, hopen⟩
  · refine ⟨x ++ ['"'], w, ['"'], by simp, ?_⟩
    rw [if_pos ⟨rfl, by rw [← List.cons_append, List.getLast?_concat]⟩]
    have hquote : '"'.utf8Size = 1 := rfl
    simp only [Match.end_, byte_len_append, byte_len_cons, byte_len_nil, hquote, Option.some.injEq,
      Prod.mk.injEq]
    omega
  · refine ⟨x, v, [], by simp, ?_⟩
    rw [if_neg]
    · rfl
    · rintro ⟨hhead, hlast⟩
      cases v with
      | nil => cases hhead
      | cons q v =>
        cases hhead
        have hno := hopen (v ++ t) rfl
        cases v with
        | nil => exact hne rfl
        | cons e v =>
          rw [List.getLast?_cons_cons] at hlast
          exact hno (List.mem_append_left _ (List.mem_of_getLast? hlast))

theorem value_range_lone {c : Captures} {v : Match} (hget : c.get 2 = some v)
    (hv : v.text = ['"']) :
    value_range c = some (v.start + 1, v.start) := by
  have hend : v.end_ = v.start + 1 := by
    rw [Match.end_, hv]
    rfl
  rw [value_range, hget, Option.map_some, hv, hend]
  rfl

theorem hasLoneQuote_iff (line : List Char) :
    HasLoneQuote word line ↔
      ∃ c ∈ captures_iter word KV line, ∃ v, c.get 2 = some v ∧ v.text = ['"'] := by
  have hplace : ∀ c ∈ captures_iter word KV line, ∀ v, c.get 2 = some v →
      (v.text = ['"'] ↔ ∃ before after, line = before ++ '"' :: after ∧ byte_len before = v.start ∧
        '"' ∉ after ∧ ∀ d ∈ after.head?, is_value_char d = false) := by
    intro c hc v hv
    obtain ⟨b, u, t, hfound⟩ := found_of_mem_captures word hc
    obtain ⟨x, v', gb, rfl, hfirst, hget⟩ := value_found word hfound
    rw [hget, Option.some.injEq] at hv
    subst hv
    have hline : line = (b ++ x) ++ (v' ++ t) := by simpa using hfound.split
    simp only [text_eq_quote_iff word hfirst]
    constructor
    · rintro ⟨after, hafter, hno, hstop⟩
      exact ⟨b ++ x, after, by rw [hline, hafter], rfl, hno, hstop⟩
    · rintro ⟨before, after, hsplit, hlen, hno, hstop⟩
      have hsame := split_at_byte_append before ('"' :: after)
      rw [hlen, ← hsplit, hline, split_at_byte_append] at hsame
      obtain ⟨-, hafter⟩ := Prod.mk.inj (Option.some.inj hsame)
      exact ⟨after, hafter, hno, hstop⟩
  constructor
  · rintro ⟨c, v, before, after, hc, hv, hline, hlen, hno, hstop⟩
    exact ⟨c, hc, v, hv, (hplace c hc v hv).mpr ⟨before, after, hline, hlen, hno, hstop⟩⟩
  · rintro ⟨c, hc, v, hv, htext⟩
    obtain ⟨before, after, hline, hlen, hno, hstop⟩ := (hplace c hc v hv).mp htext
    exact ⟨c, v, before, after, hc, hv, hline, hlen, hno, hstop⟩

/-! ## When the function returns -/

/-- Every range that the function replaces, in the first pass or in the
second one, is a range of the line as it then is. -/
def EveryRangeValid (line : List Char) : Prop :=
  (∀ ranges, (captures_iter word AUTH line).mapM token_range = some ranges →
    ValidReplay ranges REDACTED.toList line) ∧
  ∀ out ranges, mask_tokens word line = some out →
    (captures_iter word KV out).mapM value_range = some ranges →
      ValidReplay ranges REDACTED.toList out

/-- Without a lone quote the second pass does not fail. -/
theorem key_values_masked {line : List Char} (h : ¬HasLoneQuote word line) :
    ∃ ranges out, (captures_iter word KV line).mapM value_range = some ranges ∧
      Masks REDACTED.toList 0 line ranges out ∧ mask_key_values word line = some out := by
  rw [hasLoneQuote_iff] at h
  exact mask_found word fun b u t c hc hfound => value_range_found word hfound
    fun v hv hquote => h ⟨c, hc, v, hv, hquote⟩

theorem mem_of_mapM {α β : Type} {f : α → Option β} {xs : List α} {ys : List β}
    (h : xs.mapM f = some ys) {x : α} {y : β} (hx : x ∈ xs) (hy : f x = some y) : y ∈ ys := by
  induction xs generalizing ys with
  | nil => cases hx
  | cons a xs ih =>
    rw [List.mapM_cons] at h
    obtain ⟨b, hb, h⟩ := Option.bind_eq_some_iff.mp h
    obtain ⟨bs, hbs, h⟩ := Option.bind_eq_some_iff.mp h
    cases h
    cases hx with
    | head =>
      rw [hb] at hy
      cases hy
      exact .head _
    | tail _ hx => exact .tail _ (ih hbs hx)

/-- The range of a lone quote ends before it starts, and the pass fails. -/
theorem key_values_fail {line : List Char} (h : HasLoneQuote word line) :
    mask_key_values word line = none := by
  obtain ⟨c, hc, v, hv, hquote⟩ := (hasLoneQuote_iff word line).mp h
  rw [mask_key_values, mask, Option.bind_eq_none_iff]
  intro ranges hranges
  apply replace_ranges_none _ _ _ (Nat.lt_succ_self v.start)
  exact mem_of_mapM hranges hc (value_range_lone hv hquote)

/-- The function returns on the lines that have no lone quote once their
tokens are masked. -/
theorem redact_line_returns_iff (line : String) :
    (∃ out, redact_line word line = some out) ↔
      ∀ out, TokensMasked word line.toList out → ¬HasLoneQuote word out := by
  obtain ⟨ranges, out, hranges, hmasks, hout⟩ := tokens_masked word line.toList
  rw [redact_line, hout, Option.bind_some]
  constructor
  · rintro ⟨last, hlast⟩ out' hmasked hlone
    rw [← mask_tokens_iff, hout, Option.some.injEq] at hmasked
    rw [hmasked, key_values_fail word hlone] at hlast
    cases hlast
  · intro h
    have hlone := h out ⟨ranges, hranges, hmasks⟩
    obtain ⟨_, last, _, _, hlast⟩ := key_values_masked word hlone
    exact ⟨String.ofList last, by rw [hlast]; rfl⟩

/-- The function does not panic, on the very lines that have no lone quote
once their tokens are masked. -/
theorem redact_line_never_panics_iff (line : String) :
    (EveryRangeValid word line.toList ∧ ∃ out, redact_line word line = some out) ↔
      ∀ out, TokensMasked word line.toList out → ¬HasLoneQuote word out := by
  rw [redact_line_returns_iff]
  constructor
  · exact fun h => h.2
  · intro h
    obtain ⟨ranges, out, hranges, hmasks, hout⟩ := tokens_masked word line.toList
    obtain ⟨ranges', last, hranges', hmasks', _⟩ :=
      key_values_masked word (h out ⟨ranges, hranges, hmasks⟩)
    refine ⟨⟨?_, ?_⟩, h⟩
    · intro rs hrs
      rw [hranges] at hrs
      cases hrs
      exact validReplay_masks hmasks [] rfl
    · intro out' rs hout' hrs
      rw [hout] at hout'
      cases hout'
      rw [hranges'] at hrs
      cases hrs
      exact validReplay_masks hmasks' [] rfl

end

/-- The word characters of ASCII. -/
def ascii_word (c : Char) : Bool := c.isAlphanum || c == '_'

example :
    redact_line ascii_word "Authorization: Bearer abc, password=\"a b\" x" =
      some "Authorization: Bearer [REDACTED], password=\"[REDACTED]\" x" := by decide +kernel

/-- A line that ends in `password="` makes the function panic. -/
theorem a_lone_quote_panics :
    ¬∀ line, EveryRangeValid ascii_word line.toList ∧
      ∃ out, redact_line ascii_word line = some out := by
  intro h
  obtain ⟨_, out, hout⟩ := h "password=\""
  have hpanic : redact_line ascii_word "password=\"" = none := by decide +kernel
  rw [hpanic] at hout
  cases hout

end kaptein_core.redact
