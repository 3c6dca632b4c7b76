-- The parser of `serde_json`, as `from_str` uses it for a `Value`: the grammar
-- of JSON, no deeper than 127 levels, and integers of 64 bits. How the text of
-- any other number is rounded to a double is a parameter.
import Kaptein.Lib.Value

namespace serde_json

/-- The double that the text of a number is read as, or `none` if it is too large for one. -/
class FloatRead where
  float_read : String → Option F64

/-! ## Spaces and words -/

def is_space (c : Char) : Bool := c == ' ' || c == '\n' || c == '\t' || c == '\r'

/-- `parse_whitespace`. -/
def skip_space (cs : List Char) : List Char := cs.dropWhile is_space

/-- `parse_ident`: what stands behind a word. -/
def ident : List Char → List Char → Option (List Char)
  | [], cs => some cs
  | w :: word, c :: cs => if w = c then ident word cs else none
  | _ :: _, [] => none

/-! ## Strings -/

/-- The value of a hexadecimal digit in either case. -/
def hex_digit (c : Char) : Option Nat :=
  if c.isDigit then some (c.toNat - 48)
  else if 'a' ≤ c ∧ c ≤ 'f' then some (c.toNat - 87)
  else if 'A' ≤ c ∧ c ≤ 'F' then some (c.toNat - 55)
  else none

/-- `decode_hex_escape`: four digits. -/
def hex_escape : List Char → Option (Nat × List Char)
  | a :: b :: c :: d :: cs => do
    let a ← hex_digit a
    let b ← hex_digit b
    let c ← hex_digit c
    let d ← hex_digit d
    return (a * 4096 + b * 256 + c * 16 + d, cs)
  | _ => none

/-- `parse_unicode_escape`, behind the `u`: the two halves of a surrogate pair stand in
two escapes, and neither of them may stand alone. -/
def unicode_escape (cs : List Char) : Option (Char × List Char) :=
  (hex_escape cs).bind fun (n, rest) =>
    if 0xDC00 ≤ n ∧ n ≤ 0xDFFF then none
    else if n < 0xD800 ∨ 0xDBFF < n then some (Char.ofNat n, rest)
    else
      match rest with
      | '\\' :: 'u' :: rest =>
        (hex_escape rest).bind fun (m, rest) =>
          if m < 0xDC00 ∨ 0xDFFF < m then none
          else some (Char.ofNat ((n - 0xD800) * 1024 + (m - 0xDC00) + 0x10000), rest)
      | _ => none

/-- `parse_escape`, behind the backslash. -/
def escape : List Char → Option (Char × List Char)
  | [] => none
  | c :: cs =>
    if c = '"' ∨ c = '\\' ∨ c = '/' then some (c, cs)
    else if c = 'b' then some (Char.ofNat 8, cs)
    else if c = 'f' then some (Char.ofNat 12, cs)
    else if c = 'n' then some ('\n', cs)
    else if c = 'r' then some ('\r', cs)
    else if c = 't' then some ('\t', cs)
    else if c = 'u' then unicode_escape cs
    else none

/-- `parse_str_bytes`, behind the first quote: the characters of the string and what stands
behind its last quote. Each turn takes a character, so the length of the text is fuel enough. -/
def string_body : Nat → List Char → Option (List Char × List Char)
  | 0, _ => none
  | _ + 1, [] => none
  | n + 1, c :: cs =>
    if c = '"' then some ([], cs)
    else if c = '\\' then
      (escape cs).bind fun (d, cs) => (string_body n cs).map fun (ds, rest) => (d :: ds, rest)
    -- a control character has to be escaped
    else if c.toNat < 32 then none
    else (string_body n cs).map fun (ds, rest) => (c :: ds, rest)

def parse_str (cs : List Char) : Option (String × List Char) :=
  (string_body cs.length cs).map fun (s, rest) => (String.ofList s, rest)

/-! ## Numbers -/

/-- The digits at the front, and the rest. -/
def digits (cs : List Char) : List Char × List Char :=
  (cs.takeWhile Char.isDigit, cs.dropWhile Char.isDigit)

/-- `parse_decimal`: a point has a digit behind it. -/
def fraction : List Char → Option (List Char × List Char)
  | [] => some ([], [])
  | c :: cs =>
    if c = '.' then
      let (ds, rest) := digits cs
      if ds = [] then none else some ('.' :: ds, rest)
    else some ([], c :: cs)

/-- The sign that may stand in front of an exponent. -/
def sign : List Char → List Char × List Char
  | [] => ([], [])
  | c :: cs => if c = '+' ∨ c = '-' then ([c], cs) else ([], c :: cs)

/-- `parse_exponent`: a digit stands behind the `e` and its sign. -/
def exponent : List Char → Option (List Char × List Char)
  | [] => some ([], [])
  | c :: cs =>
    if c = 'e' ∨ c = 'E' then
      let (s, rest) := sign cs
      let (ds, rest) := digits rest
      if ds = [] then none else some (c :: s ++ ds, rest)
    else some ([], c :: cs)

/-- An integer in 64 bits. A negative zero is none. -/
def integer (positive : Bool) (n : Nat) : Option Number :=
  if positive then
    if h : n < 2 ^ 64 then some (.PosInt n h) else none
  else if h : 0 < n ∧ n ≤ 2 ^ 63 then some (.NegInt (-n) (by omega))
  else none

/-- `parse_any_number`, behind the sign: an integer that fits, or else a double. -/
def parse_any_number [FloatRead] (positive : Bool) (cs : List Char) :
    Option (Number × List Char) :=
  let (int, rest) := digits cs
  -- there can be only one leading zero
  if int = [] ∨ int.head? = some '0' ∧ int.length ≠ 1 then none
  else
    (fraction rest).bind fun (frac, rest) =>
      (exponent rest).bind fun (exp, rest) =>
        let small :=
          if frac = [] ∧ exp = [] then integer positive (Nat.ofDigitChars 10 int 0) else none
        match small with
        | some n => some (n, rest)
        | none =>
          let text := (if positive then [] else ['-']) ++ int ++ frac ++ exp
          (FloatRead.float_read (String.ofList text)).map fun x => (.Float x, rest)

/-! ## Values -/

/-- `has_next_element` and `has_next_key`: whether a list goes on, and where its next entry
starts. A comma stands in front of each entry but the first, and none at the end. -/
def next_entry (close : Char) (first : Bool) (cs : List Char) : Option (Bool × List Char) :=
  match skip_space cs with
  | [] => none
  | c :: rest =>
    if c = close then some (false, rest)
    else if first then some (true, c :: rest)
    else if c = ',' then
      match skip_space rest with
      | [] => none
      | d :: rest => if d = close then none else some (true, d :: rest)
    else none

/-- A key with the colon behind it. -/
def key (cs : List Char) : Option (String × List Char) :=
  match cs with
  | '"' :: cs =>
    (parse_str cs).bind fun (k, rest) =>
      match skip_space rest with
      | ':' :: rest => some (k, rest)
      | _ => none
  | _ => none

mutual
/-- A value at the front of a text, and what stands behind it. The depth is what
`remaining_depth` counts down; the first number is fuel. -/
def parse_value [FloatRead] : Nat → Nat → List Char → Option (Value × List Char)
  | 0, _, _ => none
  | n + 1, depth, cs =>
    match skip_space cs with
    | [] => none
    | c :: cs =>
      if c = 'n' then (ident ['u', 'l', 'l'] cs).map fun rest => (.null, rest)
      else if c = 't' then (ident ['r', 'u', 'e'] cs).map fun rest => (.bool true, rest)
      else if c = 'f' then (ident ['a', 'l', 's', 'e'] cs).map fun rest => (.bool false, rest)
      else if c = '-' then (parse_any_number false cs).map fun (x, rest) => (.number x, rest)
      else if c.isDigit then
        (parse_any_number true (c :: cs)).map fun (x, rest) => (.number x, rest)
      else if c = '"' then (parse_str cs).map fun (s, rest) => (.string s, rest)
      else if depth ≤ 1 then none
      else if c = '[' then
        (parse_items n (depth - 1) true cs).map fun (items, rest) => (.array items, rest)
      else if c = '\x7b' then
        (parse_members n (depth - 1) true cs).map fun (members, rest) =>
          (.object (Map.insert_all [] members), rest)
      else none
/-- The items of an array up to its end. -/
def parse_items [FloatRead] : Nat → Nat → Bool → List Char → Option (List Value × List Char)
  | 0, _, _, _ => none
  | n + 1, depth, first, cs =>
    (next_entry ']' first cs).bind fun (more, cs) =>
      if more then
        (parse_value n depth cs).bind fun (v, cs) =>
          (parse_items n depth false cs).map fun (vs, rest) => (v :: vs, rest)
      else some ([], cs)
/-- The members of an object up to its end, in the order of the text. -/
def parse_members [FloatRead] : Nat → Nat → Bool → List Char →
    Option (List (String × Value) × List Char)
  | 0, _, _, _ => none
  | n + 1, depth, first, cs =>
    (next_entry '\x7d' first cs).bind fun (more, cs) =>
      if more then
        (key cs).bind fun (k, cs) =>
          (parse_value n depth cs).bind fun (v, cs) =>
            (parse_members n depth false cs).map fun (vs, rest) => ((k, v) :: vs, rest)
      else some ([], cs)
end

/-- `from_str::<Value>`: one value with nothing but spaces around it. -/
def from_str [FloatRead] (s : String) : Option Value :=
  (parse_value (2 * s.toList.length) 128 s.toList).bind fun (v, rest) =>
    if skip_space rest = [] then some v else none

/-! ## Every part uses up a character -/

theorem skip_space_length (cs : List Char) : (skip_space cs).length ≤ cs.length :=
  (List.dropWhile_suffix _).length_le

theorem digits_length (cs : List Char) :
    (digits cs).1.length + (digits cs).2.length = cs.length := by
  rw [← List.length_append]
  exact congrArg List.length List.takeWhile_append_dropWhile

theorem ident_length {word cs rest : List Char} (h : ident word cs = some rest) :
    rest.length ≤ cs.length := by
  induction word generalizing cs with
  | nil =>
    cases h
    exact Nat.le_refl _
  | cons w word ih =>
    cases cs with
    | nil => cases h
    | cons c cs =>
      unfold ident at h
      split at h
      · exact Nat.le_succ_of_le (ih h)
      · cases h

theorem hex_escape_length {cs rest : List Char} {n : Nat} (h : hex_escape cs = some (n, rest)) :
    rest.length < cs.length := by
  unfold hex_escape at h
  split at h
  · simp only [Option.bind_eq_bind, Option.pure_def, Option.bind_eq_some_iff, Option.some.injEq,
      Prod.mk.injEq] at h
    obtain ⟨_, _, _, _, _, _, _, _, _, rfl⟩ := h
    simp only [List.length_cons]
    omega
  · cases h

theorem unicode_escape_length {cs rest : List Char} {c : Char}
    (h : unicode_escape cs = some (c, rest)) : rest.length < cs.length := by
  unfold unicode_escape at h
  obtain ⟨⟨n, rest₁⟩, hn, h⟩ := Option.bind_eq_some_iff.mp h
  have hfirst := hex_escape_length hn
  dsimp only at h
  split at h
  · cases h
  · split at h
    · cases h
      exact hfirst
    · split at h
      · obtain ⟨⟨m, rest₂⟩, hm, h⟩ := Option.bind_eq_some_iff.mp h
        have hsecond := hex_escape_length hm
        dsimp only at h
        split at h
        · cases h
        · simp only [Option.some.injEq, Prod.mk.injEq] at h
          obtain ⟨-, rfl⟩ := h
          simp only [List.length_cons] at hfirst
          omega
      · cases h

theorem escape_length {cs rest : List Char} {c : Char} (h : escape cs = some (c, rest)) :
    rest.length < cs.length := by
  cases cs with
  | nil => cases h
  | cons d cs =>
    rw [List.length_cons, Nat.lt_succ_iff]
    rw [escape] at h
    iterate 6
      split at h
      · cases h
        exact Nat.le_refl _
    split at h
    · exact Nat.le_of_lt (unicode_escape_length h)
    · cases h

theorem string_body_length {n : Nat} {cs s rest : List Char}
    (h : string_body n cs = some (s, rest)) : rest.length < cs.length := by
  induction n generalizing cs s with
  | zero => cases h
  | succ n ih =>
    cases cs with
    | nil => cases h
    | cons c cs =>
      rw [List.length_cons, Nat.lt_succ_iff]
      unfold string_body at h
      split at h
      · cases h
        exact Nat.le_refl _
      · split at h
        · obtain ⟨⟨d, mid⟩, hd, h⟩ := Option.bind_eq_some_iff.mp h
          obtain ⟨⟨ds, rest'⟩, hds, h⟩ := Option.map_eq_some_iff.mp h
          cases h
          exact Nat.le_of_lt (Nat.lt_trans (ih hds) (escape_length hd))
        · split at h
          · cases h
          · obtain ⟨⟨ds, rest'⟩, hds, h⟩ := Option.map_eq_some_iff.mp h
            cases h
            exact Nat.le_of_lt (ih hds)

theorem parse_str_length {cs rest : List Char} {s : String}
    (h : parse_str cs = some (s, rest)) : rest.length < cs.length := by
  obtain ⟨⟨body, rest'⟩, hbody, h⟩ := Option.map_eq_some_iff.mp h
  cases h
  exact string_body_length hbody

theorem fraction_length {cs frac rest : List Char} (h : fraction cs = some (frac, rest)) :
    rest.length ≤ cs.length := by
  cases cs with
  | nil =>
    cases h
    exact Nat.le_refl _
  | cons c cs =>
    have hdigits := digits_length cs
    unfold fraction at h
    dsimp only at h
    split at h
    · split at h
      · cases h
      · cases h
        rw [List.length_cons]
        omega
    · cases h
      exact Nat.le_refl _

theorem sign_length (cs : List Char) : (sign cs).2.length ≤ cs.length := by
  cases cs with
  | nil => exact Nat.le_refl _
  | cons c cs =>
    rw [sign]
    split
    · exact Nat.le_succ _
    · exact Nat.le_refl _

theorem exponent_length {cs exp rest : List Char} (h : exponent cs = some (exp, rest)) :
    rest.length ≤ cs.length := by
  cases cs with
  | nil =>
    cases h
    exact Nat.le_refl _
  | cons c cs =>
    have hsign := sign_length cs
    have hdigits := digits_length (sign cs).2
    unfold exponent at h
    dsimp only at h
    split at h
    · split at h
      · cases h
      · cases h
        rw [List.length_cons]
        omega
    · cases h
      exact Nat.le_refl _

theorem parse_any_number_length [FloatRead] {positive : Bool} {cs rest : List Char} {x : Number}
    (h : parse_any_number positive cs = some (x, rest)) : rest.length < cs.length := by
  have hdigits := digits_length cs
  unfold parse_any_number at h
  dsimp only at h
  split at h
  · cases h
  · rename_i hint
    have hpos : 0 < (digits cs).1.length := by
      rw [List.length_pos_iff]
      exact fun h0 => hint (Or.inl h0)
    obtain ⟨⟨frac, rest₁⟩, hfrac, h⟩ := Option.bind_eq_some_iff.mp h
    obtain ⟨⟨exp, rest₂⟩, hexp, h⟩ := Option.bind_eq_some_iff.mp h
    have h₁ := fraction_length hfrac
    have h₂ := exponent_length hexp
    have hrest : rest = rest₂ := by
      dsimp only at h
      split at h
      · cases h
        rfl
      · obtain ⟨_, _, h⟩ := Option.map_eq_some_iff.mp h
        cases h
        rfl
    subst hrest
    dsimp only at h₁ h₂
    omega

theorem next_entry_length {close : Char} {first more : Bool} {cs rest : List Char}
    (h : next_entry close first cs = some (more, rest)) :
    rest.length ≤ cs.length ∧ (more = false ∨ first = false → rest.length < cs.length) := by
  have hskip := skip_space_length cs
  unfold next_entry at h
  split at h
  · cases h
  · rename_i c tail hcs
    rw [hcs, List.length_cons] at hskip
    split at h
    · cases h
      omega
    · split at h
      · rename_i hfirst
        cases h
        simp only [hfirst, List.length_cons, Bool.true_eq_false, or_self, false_implies, and_true]
        exact hskip
      · split at h
        · have htail := skip_space_length tail
          split at h
          · cases h
          · rename_i d rest' htl
            rw [htl] at htail
            split at h
            · cases h
            · cases h
              omega
        · cases h

theorem key_length {cs rest : List Char} {k : String} (h : key cs = some (k, rest)) :
    rest.length < cs.length := by
  unfold key at h
  split at h
  · obtain ⟨⟨s, rest₁⟩, hs, h⟩ := Option.bind_eq_some_iff.mp h
    have hstr := parse_str_length hs
    have hskip := skip_space_length rest₁
    dsimp only at h
    split at h
    · rename_i rest₂ hrest
      cases h
      rw [hrest] at hskip
      simp only [List.length_cons] at hskip ⊢
      omega
    · cases h
  · cases h

theorem parse_length [FloatRead] (n : Nat) :
    (∀ depth cs v rest, parse_value n depth cs = some (v, rest) → rest.length < cs.length) ∧
    (∀ depth first cs vs rest, parse_items n depth first cs = some (vs, rest) →
      rest.length < cs.length) ∧
    ∀ depth first cs vs rest, parse_members n depth first cs = some (vs, rest) →
      rest.length < cs.length := by
  induction n with
  | zero => exact ⟨by rintro _ _ _ _ ⟨⟩, by rintro _ _ _ _ _ ⟨⟩, by rintro _ _ _ _ _ ⟨⟩⟩
  | succ n ih =>
    obtain ⟨ihv, ihi, ihm⟩ := ih
    refine ⟨?_, ?_, ?_⟩
    · intro depth cs v rest h
      have hskip := skip_space_length cs
      unfold parse_value at h
      split at h
      · cases h
      · rename_i c tail hcs
        rw [hcs, List.length_cons] at hskip
        suffices hrest : rest.length < tail.length + 1 from Nat.lt_of_lt_of_le hrest hskip
        iterate 3
          split at h
          · obtain ⟨rest', hword, h⟩ := Option.map_eq_some_iff.mp h
            cases h
            exact Nat.lt_succ_of_le (ident_length hword)
        split at h
        · obtain ⟨⟨x, rest'⟩, hnum, h⟩ := Option.map_eq_some_iff.mp h
          cases h
          exact Nat.lt_succ_of_lt (parse_any_number_length hnum)
        split at h
        · obtain ⟨⟨x, rest'⟩, hnum, h⟩ := Option.map_eq_some_iff.mp h
          cases h
          exact parse_any_number_length hnum
        split at h
        · obtain ⟨⟨s, rest'⟩, hs, h⟩ := Option.map_eq_some_iff.mp h
          cases h
          exact Nat.lt_succ_of_lt (parse_str_length hs)
        split at h
        · cases h
        split at h
        · obtain ⟨⟨vs, rest'⟩, hvs, h⟩ := Option.map_eq_some_iff.mp h
          cases h
          exact Nat.lt_succ_of_lt (ihi _ _ _ _ _ hvs)
        split at h
        · obtain ⟨⟨vs, rest'⟩, hvs, h⟩ := Option.map_eq_some_iff.mp h
          cases h
          exact Nat.lt_succ_of_lt (ihm _ _ _ _ _ hvs)
        · cases h
    · intro depth first cs vs rest h
      unfold parse_items at h
      obtain ⟨⟨more, cs₁⟩, hnext, h⟩ := Option.bind_eq_some_iff.mp h
      obtain ⟨hle, hlt⟩ := next_entry_length hnext
      dsimp only at h
      split at h
      · obtain ⟨⟨v, cs₂⟩, hv, h⟩ := Option.bind_eq_some_iff.mp h
        obtain ⟨⟨vs', cs₃⟩, hvs, h⟩ := Option.map_eq_some_iff.mp h
        obtain ⟨-, rfl⟩ := Prod.mk.inj h
        have h₁ := ihv _ _ _ _ hv
        have h₂ := ihi _ _ _ _ _ hvs
        dsimp only at h₁ h₂ ⊢
        omega
      · rename_i hmore
        cases h
        exact hlt (Or.inl (Bool.eq_false_iff.mpr hmore))
    · intro depth first cs vs rest h
      unfold parse_members at h
      obtain ⟨⟨more, cs₁⟩, hnext, h⟩ := Option.bind_eq_some_iff.mp h
      obtain ⟨hle, hlt⟩ := next_entry_length hnext
      dsimp only at h
      split at h
      · obtain ⟨⟨k, cs₂⟩, hk, h⟩ := Option.bind_eq_some_iff.mp h
        obtain ⟨⟨v, cs₃⟩, hv, h⟩ := Option.bind_eq_some_iff.mp h
        obtain ⟨⟨vs', cs₄⟩, hvs, h⟩ := Option.map_eq_some_iff.mp h
        obtain ⟨-, rfl⟩ := Prod.mk.inj h
        have h₀ := key_length hk
        have h₁ := ihv _ _ _ _ hv
        have h₂ := ihm _ _ _ _ _ hvs
        dsimp only at h₀ h₁ h₂ ⊢
        omega
      · rename_i hmore
        cases h
        exact hlt (Or.inl (Bool.eq_false_iff.mpr hmore))

/-! ## Fuel -/

/-- Twice the length of a text is fuel enough: more of it changes nothing. -/
theorem parse_fuel [FloatRead] (n : Nat) : ∀ m,
    (∀ depth cs, 2 * cs.length ≤ n → n ≤ m → parse_value m depth cs = parse_value n depth cs) ∧
    (∀ depth first cs, 2 * cs.length + 1 ≤ n → n ≤ m →
      parse_items m depth first cs = parse_items n depth first cs) ∧
    ∀ depth first cs, 2 * cs.length + 1 ≤ n → n ≤ m →
      parse_members m depth first cs = parse_members n depth first cs := by
  induction n with
  | zero =>
    intro m
    refine ⟨?_, ?_, ?_⟩
    · intro depth cs hlen _
      have hcs : cs = [] := List.eq_nil_of_length_eq_zero (by omega)
      subst hcs
      cases m with
      | zero => rfl
      | succ m => rfl
    · intro depth first cs hlen
      omega
    · intro depth first cs hlen
      omega
  | succ n ih =>
    intro m
    cases m with
    | zero => exact ⟨by omega, by omega, by omega⟩
    | succ m =>
      obtain ⟨ihv, ihi, ihm⟩ := ih m
      refine ⟨?_, ?_, ?_⟩
      · intro depth cs hlen hm
        have hskip := skip_space_length cs
        unfold parse_value
        split
        · rfl
        · rename_i c tail hcs
          rw [hcs, List.length_cons] at hskip
          rw [ihi _ _ _ (by omega) (by omega), ihm _ _ _ (by omega) (by omega)]
      · intro depth first cs hlen hm
        unfold parse_items
        refine Option.bind_congr fun ⟨more, cs₁⟩ hnext => ?_
        have hle := (next_entry_length hnext).1
        dsimp only
        rw [ihv _ cs₁ (by omega) (by omega)]
        split
        · refine Option.bind_congr fun ⟨v, cs₂⟩ hv => ?_
          have hlt := (parse_length n).1 _ _ _ _ hv
          rw [ihi _ _ _ (by dsimp only; omega) (by omega)]
        · rfl
      · intro depth first cs hlen hm
        unfold parse_members
        refine Option.bind_congr fun ⟨more, cs₁⟩ hnext => ?_
        have hle := (next_entry_length hnext).1
        dsimp only
        split
        · refine Option.bind_congr fun ⟨k, cs₂⟩ hk => ?_
          have hlt₁ := key_length hk
          dsimp only
          rw [ihv _ _ (by omega) (by omega)]
          refine Option.bind_congr fun ⟨v, cs₃⟩ hv => ?_
          have hlt₂ := (parse_length n).1 _ _ _ _ hv
          rw [ihm _ _ _ (by dsimp only; omega) (by omega)]
        · rfl

end serde_json
