-- The parser of `serde_json` undoes its printer: the compact text of a value is
-- read as that value, if its doubles are read back and it is not too deep.
import Mathlib.Data.String.Basic
import Mathlib.Tactic.Tauto
import Kaptein.Lib.BTreeMap
import Kaptein.Lib.Json

namespace serde_json

/-! ## Maps in order -/

/-- The keys stand in their order, each of them once. -/
def Map.Ordered (m : Map) : Prop := btree.Sorted m

theorem Map.insert_eq (k : String) (v : Value) (m : Map) :
    Map.insert k v m = btree.insert_entry k v m := by
  induction m with
  | nil => rfl
  | cons p m ih => rw [Map.insert, btree.insert_entry, ih]

/-- Each key of a list that names none twice has its own value in the map. -/
theorem Map.get_insert_all {m es : Map} (h : es.keys.Nodup) (k : String) :
    Map.get (Map.insert_all m es) k = (Map.get es k).or (Map.get m k) := by
  induction es generalizing m with
  | nil => rfl
  | cons p es ih =>
    obtain ⟨k', v⟩ := p
    rw [Map.keys_cons, List.nodup_cons] at h
    have hstep : Map.insert_all m ((k', v) :: es) = Map.insert_all (Map.insert k' v m) es := rfl
    rw [hstep, ih h.2, Map.get_cons]
    by_cases hk : k' = k
    · subst hk
      have hnone : Map.get es k' = none := by
        rw [Map.get, Option.map_eq_none_iff, List.find?_eq_none]
        intro p hp heq
        exact h.1 (List.mem_map.mpr ⟨p, hp, by simpa using heq⟩)
      rw [hnone, Map.get_insert_self, if_pos rfl]
      rfl
    · rw [Map.get_insert_ne _ _ _ _ hk, if_neg hk]

/-! ## Strings -/

theorem hex_digit_digitChar : ∀ d < 16, hex_digit (Nat.digitChar d) = some d := by decide

/-- The characters that the printer writes of a string between the quotes. -/
def escapes (cs : List Char) : List Char := cs.flatMap fun c => (escape_char c).toList

theorem quoted_text (s : String) : (quoted s).toList = '"' :: (escapes s.toList ++ ['"']) := by
  simp [quoted, escapes, List.flatMap_map]

theorem unicode_escape_control {c : Char} (h : c.toNat < 32) (rest : List Char) :
    unicode_escape ('0' :: '0' :: Nat.digitChar (c.toNat / 16) :: Nat.digitChar (c.toNat % 16) ::
      rest) = some (c, rest) := by
  have hhex : hex_escape ('0' :: '0' :: Nat.digitChar (c.toNat / 16) ::
      Nat.digitChar (c.toNat % 16) :: rest) = some (c.toNat, rest) := by
    have hzero : hex_digit '0' = some 0 := by decide
    simp only [hex_escape, hzero, hex_digit_digitChar _ (show c.toNat / 16 < 16 by omega),
      hex_digit_digitChar _ (show c.toNat % 16 < 16 by omega), Option.bind_eq_bind,
      Option.bind_some, Option.pure_def, Option.some.injEq, Prod.mk.injEq, and_true]
    omega
  rw [unicode_escape, hhex, Option.bind_some]
  dsimp only
  rw [if_neg (by omega), if_pos (by omega), Char.ofNat_toNat]

/-- One turn reads back one character, however it is escaped. -/
theorem string_body_escape_char (n : Nat) (c : Char) (rest : List Char) :
    string_body (n + 1) ((escape_char c).toList ++ rest) =
      (string_body n rest).map fun (ds, rest) => (c :: ds, rest) := by
  have hescape : ∀ d tail, escape tail = some (d, rest) →
      string_body (n + 1) ('\\' :: tail) =
        (string_body n rest).map fun (ds, rest) => (d :: ds, rest) := by
    intro d tail h
    rw [string_body, if_neg (by decide), if_pos rfl, h, Option.bind_some]
  unfold escape_char
  split_ifs with hquote hback hnl hcr htab hb hf hcontrol
  · subst hquote
    exact hescape _ _ rfl
  · subst hback
    exact hescape _ _ rfl
  · subst hnl
    exact hescape _ _ rfl
  · subst hcr
    exact hescape _ _ rfl
  · subst htab
    exact hescape _ _ rfl
  · rw [← Char.ofNat_toNat c, hb]
    exact hescape _ _ rfl
  · rw [← Char.ofNat_toNat c, hf]
    exact hescape _ _ rfl
  · simp only [String.toList_append, String.toList_ofList]
    exact hescape _ _ (unicode_escape_control hcontrol rest)
  · rw [String.toList_ofList, List.cons_append, List.nil_append, string_body, if_neg hquote,
      if_neg hback, if_neg hcontrol]

theorem string_body_escapes (n : Nat) (cs rest : List Char) (h : (escapes cs).length < n) :
    string_body n (escapes cs ++ '"' :: rest) = some (cs, rest) := by
  induction cs generalizing n with
  | nil =>
    cases n with
    | zero => cases h
    | succ n => rfl
  | cons c cs ih =>
    have hone : 0 < (escape_char c).toList.length := by
      unfold escape_char
      split_ifs <;> simp
    have hcons : escapes (c :: cs) = (escape_char c).toList ++ escapes cs := List.flatMap_cons
    rw [hcons, List.length_append] at h
    cases n with
    | zero => cases h
    | succ n =>
      rw [hcons, List.append_assoc, string_body_escape_char, ih n (by omega)]
      rfl

theorem parse_str_quoted (s : String) (rest : List Char) :
    parse_str (escapes s.toList ++ '"' :: rest) = some (s, rest) := by
  rw [parse_str, string_body_escapes _ _ _ (by simp)]
  simp only [Option.map_some, String.ofList_toList]

/-! ## Numbers -/

/-- What may stand behind a number. -/
def Stops : List Char → Prop
  | [] => True
  | c :: _ => c.isDigit = false ∧ c ≠ '.' ∧ c ≠ 'e' ∧ c ≠ 'E'

theorem digits_append (cs : List Char) {rest : List Char} (h : Stops rest) :
    digits (cs ++ rest) = ((digits cs).1, (digits cs).2 ++ rest) := by
  induction cs with
  | nil =>
    cases rest with
    | nil => rfl
    | cons c rest => simp [digits, h.1]
  | cons c cs ih =>
    unfold digits at ih ⊢
    by_cases hc : c.isDigit = true
    · simp only [List.cons_append, List.takeWhile_cons, hc, List.dropWhile_cons, if_true]
      rw [(Prod.mk.inj ih).1, (Prod.mk.inj ih).2]
    · simp [hc]

theorem fraction_append {cs frac tail rest : List Char} (h : Stops rest)
    (hcs : fraction cs = some (frac, tail)) :
    fraction (cs ++ rest) = some (frac, tail ++ rest) := by
  cases cs with
  | nil =>
    cases hcs
    cases rest with
    | nil => rfl
    | cons c rest => exact if_neg h.2.1
  | cons c cs =>
    rw [List.cons_append, fraction, digits_append cs h]
    rw [fraction] at hcs
    dsimp only at hcs ⊢
    split_ifs at hcs ⊢ with hc hds
    · cases hcs
      rfl
    · cases hcs
      rfl

theorem sign_append {cs rest : List Char} (hcs : (digits (sign cs).2).1 ≠ []) :
    sign (cs ++ rest) = ((sign cs).1, (sign cs).2 ++ rest) := by
  cases cs with
  | nil => exact absurd rfl hcs
  | cons c cs =>
    rw [List.cons_append, sign, sign]
    split
    · rfl
    · rfl

theorem exponent_append {cs exp tail rest : List Char} (h : Stops rest)
    (hcs : exponent cs = some (exp, tail)) :
    exponent (cs ++ rest) = some (exp, tail ++ rest) := by
  cases cs with
  | nil =>
    cases hcs
    cases rest with
    | nil => rfl
    | cons c rest => exact if_neg (fun hc => hc.elim h.2.2.1 h.2.2.2)
  | cons c cs =>
    rw [List.cons_append, exponent]
    rw [exponent] at hcs
    dsimp only at hcs ⊢
    by_cases hc : c = 'e' ∨ c = 'E'
    · rw [if_pos hc] at hcs ⊢
      by_cases hds : (digits (sign cs).2).1 = []
      · rw [if_pos hds] at hcs
        cases hcs
      · rw [if_neg hds] at hcs
        cases hcs
        rw [sign_append hds, digits_append _ h, if_neg hds]
    · rw [if_neg hc] at hcs ⊢
      cases hcs
      rfl

/-- A number is read the same with other text behind it. -/
theorem parse_any_number_append [FloatRead] {positive : Bool} {cs rest : List Char} {x : Number}
    (h : Stops rest) (hcs : parse_any_number positive cs = some (x, [])) :
    parse_any_number positive (cs ++ rest) = some (x, rest) := by
  unfold parse_any_number at hcs ⊢
  rw [digits_append cs h]
  dsimp only at hcs ⊢
  split at hcs
  · cases hcs
  · rename_i hint
    obtain ⟨⟨frac, rest₁⟩, hfrac, hcs⟩ := Option.bind_eq_some_iff.mp hcs
    obtain ⟨⟨exp, rest₂⟩, hexp, hcs⟩ := Option.bind_eq_some_iff.mp hcs
    rw [if_neg hint, fraction_append h hfrac, Option.bind_some, exponent_append h hexp,
      Option.bind_some]
    dsimp only at hcs ⊢
    split at hcs
    · rename_i n hn
      cases hcs
      rw [hn]
      rfl
    · rename_i hn
      obtain ⟨y, hy, hcs⟩ := Option.map_eq_some_iff.mp hcs
      cases hcs
      rw [hn, hy]
      rfl

/-- A number with its sign. -/
def parse_number [FloatRead] : List Char → Option (Number × List Char)
  | '-' :: cs => parse_any_number false cs
  | cs => parse_any_number true cs

/-- The text that is printed of a double is read as this double. -/
def F64.ReadsBack [FloatText] [FloatRead] (x : F64) : Prop :=
  parse_number (FloatText.float_text x).toList = some (.Float x, [])

def Number.ReadsBack [FloatText] [FloatRead] : Number → Prop
  | .Float x => x.ReadsBack
  | _ => True

theorem digits_of_all {cs : List Char} (h : ∀ c ∈ cs, c.isDigit = true) : digits cs = (cs, []) := by
  rw [digits, List.takeWhile_eq_self_iff.mpr h, List.dropWhile_eq_nil_iff.mpr h]

theorem toDigits_isDigit (n : Nat) : ∀ c ∈ Nat.toDigits 10 n, c.isDigit = true :=
  fun _ hc => Nat.isDigit_of_mem_toDigits (by decide) (by decide) hc

theorem head_toDigits {n : Nat} (h : 0 < n) : (Nat.toDigits 10 n).head? ≠ some '0' := by
  induction n using Nat.strong_induction_on with
  | _ n ih =>
    by_cases hn : n < 10
    · have hdigit : ∀ m < 10, 0 < m → Nat.digitChar m ≠ '0' := by decide
      rw [Nat.toDigits_of_lt_base hn]
      simpa using hdigit n hn h
    · have hhigh := ih (n / 10) (by omega) (by omega)
      rw [Nat.toDigits_of_base_le (by decide) (by omega),
        List.head?_append_of_ne_nil _ Nat.toDigits_ne_nil]
      exact hhigh

/-- The digits of an integer that fits 64 bits are read as this integer. -/
theorem parse_any_number_digits [FloatRead] {positive : Bool} {n : Nat} {x : Number}
    (h : integer positive n = some x) :
    parse_any_number positive (Nat.toDigits 10 n) = some (x, []) := by
  have hzero : ¬(Nat.toDigits 10 n = [] ∨
      (Nat.toDigits 10 n).head? = some '0' ∧ (Nat.toDigits 10 n).length ≠ 1) := by
    rintro (hnil | ⟨hhead, hlen⟩)
    · exact Nat.toDigits_ne_nil hnil
    · rcases Nat.eq_zero_or_pos n with rfl | hn
      · exact hlen (by rw [Nat.toDigits_zero]; rfl)
      · exact head_toDigits hn hhead
  unfold parse_any_number
  rw [digits_of_all (toDigits_isDigit n)]
  dsimp only
  rw [if_neg hzero]
  simp [fraction, exponent, Nat.ofDigitChars_ten_toDigits, h]

theorem parse_number_text [FloatText] [FloatRead] {n : Number} (h : n.ReadsBack) :
    parse_number n.to_string.toList = some (n, []) := by
  cases n with
  | PosInt n fits =>
    have htext : (Number.PosInt n fits).to_string.toList = Nat.toDigits 10 n := Nat.toList_repr
    have hpos : integer true n = some (.PosInt n fits) := dif_pos fits
    rw [htext, parse_number.eq_def]
    split
    · rename_i cs hcs
      exact absurd (toDigits_isDigit n '-' (by simp [hcs])) (by decide)
    · exact parse_any_number_digits hpos
  | NegInt i fits =>
    obtain ⟨m, rfl⟩ : ∃ m : Nat, i = -(m + 1 : Nat) := ⟨(-i).toNat - 1, by omega⟩
    have htext : (Number.NegInt (-(m + 1 : Nat)) fits).to_string.toList =
        '-' :: Nat.toDigits 10 (m + 1) := by
      rw [Number.to_string, Int.toString_eq_repr, Int.repr_eq_if, if_neg (by omega), Int.neg_neg]
      simp [Nat.toList_repr]
    have hneg : integer false (m + 1) = some (.NegInt (-(m + 1 : Nat)) fits) := by
      rw [integer, if_neg (by decide), dif_pos ⟨by omega, by omega⟩]
    rw [htext]
    exact parse_any_number_digits hneg
  | Float x => exact h

/-! ## Values -/

mutual
/-- How many arrays and objects stand inside each other. -/
def Value.depth : Value → Nat
  | .array items => Value.depth_of_items items + 1
  | .object members => Value.depth_of_members members + 1
  | _ => 0
def Value.depth_of_items : List Value → Nat
  | [] => 0
  | v :: vs => max v.depth (Value.depth_of_items vs)
def Value.depth_of_members : List (String × Value) → Nat
  | [] => 0
  | (_, v) :: m => max v.depth (Value.depth_of_members m)
end

mutual
/-- The doubles of the value are read back. -/
def Value.ReadsBack [FloatText] [FloatRead] : Value → Prop
  | .number n => n.ReadsBack
  | .array items => Value.ItemsReadBack items
  | .object members => Value.MembersReadBack members
  | _ => True
def Value.ItemsReadBack [FloatText] [FloatRead] : List Value → Prop
  | [] => True
  | v :: vs => v.ReadsBack ∧ Value.ItemsReadBack vs
def Value.MembersReadBack [FloatText] [FloatRead] : List (String × Value) → Prop
  | [] => True
  | (_, v) :: m => v.ReadsBack ∧ Value.MembersReadBack m
end

mutual
/-- The value with its members put into maps, as the parser does. -/
def Value.stored : Value → Value
  | .array items => .array (Value.stored_items items)
  | .object members => .object (Map.insert_all [] (Value.stored_members members))
  | v => v
def Value.stored_items : List Value → List Value
  | [] => []
  | v :: vs => v.stored :: Value.stored_items vs
def Value.stored_members : List (String × Value) → List (String × Value)
  | [] => []
  | (k, v) :: m => (k, v.stored) :: Value.stored_members m
end

theorem keys_stored_members (m : List (String × Value)) :
    Map.keys (Value.stored_members m) = Map.keys m := by
  induction m with
  | nil => rw [Value.stored_members]
  | cons p m ih => rw [Value.stored_members, Map.keys_cons, Map.keys_cons, ih]

theorem get_stored_members (m : List (String × Value)) (k : String) :
    Map.get (Value.stored_members m) k = (Map.get m k).map Value.stored := by
  induction m with
  | nil =>
    rw [Value.stored_members]
    rfl
  | cons p m ih =>
    rw [Value.stored_members, Map.get_cons, Map.get_cons, ih]
    split <;> rfl

def Value.text [FloatText] (v : Value) : List Char := v.to_string.toList

/-- The items behind the first, each with its comma. -/
def items_tail [FloatText] (vs : List Value) : List Char := vs.flatMap fun v => ',' :: v.text

/-- The members behind the first, each with its comma. -/
def members_tail [FloatText] (m : List (String × Value)) : List Char :=
  m.flatMap fun p => ',' :: '"' :: (escapes p.1.toList ++ '"' :: ':' :: p.2.text)

theorem null_text [FloatText] : Value.null.text = ['n', 'u', 'l', 'l'] := by
  rw [Value.text, Value.to_string]
  rfl

theorem bool_text [FloatText] (b : Bool) : (Value.bool b).text =
    if b then ['t', 'r', 'u', 'e'] else ['f', 'a', 'l', 's', 'e'] := by
  rw [Value.text, Value.to_string]
  cases b <;> rfl

theorem number_text [FloatText] (n : Number) : (Value.number n).text = n.to_string.toList := by
  rw [Value.text, Value.to_string]

theorem string_text [FloatText] (s : String) :
    (Value.string s).text = '"' :: (escapes s.toList ++ ['"']) := by
  rw [Value.text, Value.to_string, quoted_text]

theorem intercalate_text (t : String) (ts : List String) :
    (",".intercalate (t :: ts)).toList = t.toList ++ ts.flatMap fun u => ',' :: u.toList := by
  induction ts generalizing t with
  | nil => simp
  | cons u ts ih =>
    rw [String.intercalate_cons_cons, String.toList_append, ih]
    simp

theorem texts_of_items_eq [FloatText] (vs : List Value) :
    Value.texts_of_items vs = vs.map Value.to_string := by
  induction vs with
  | nil => rw [Value.texts_of_items, List.map_nil]
  | cons v vs ih => rw [Value.texts_of_items, ih, List.map_cons]

theorem texts_of_members_eq [FloatText] (m : List (String × Value)) :
    Value.texts_of_members m = m.map fun p => quoted p.1 ++ ":" ++ p.2.to_string := by
  induction m with
  | nil => rw [Value.texts_of_members, List.map_nil]
  | cons p m ih => rw [Value.texts_of_members, ih, List.map_cons]

theorem array_nil_text [FloatText] : (Value.array []).text = ['[', ']'] := by
  rw [Value.text, Value.to_string, Value.texts_of_items]
  rfl

theorem object_nil_text [FloatText] : (Value.object []).text = ['\x7b', '\x7d'] := by
  rw [Value.text, Value.to_string, Value.texts_of_members]
  rfl

theorem array_text [FloatText] (v : Value) (vs : List Value) :
    (Value.array (v :: vs)).text = '[' :: (v.text ++ items_tail vs ++ [']']) := by
  rw [Value.text, Value.to_string, texts_of_items_eq, List.map_cons, String.toList_append,
    String.toList_append, intercalate_text, List.flatMap_map]
  rfl

theorem object_text [FloatText] (k : String) (v : Value) (m : List (String × Value)) :
    (Value.object ((k, v) :: m)).text =
      '\x7b' :: '"' ::
        (escapes k.toList ++ '"' :: ':' :: (v.text ++ members_tail m ++ ['\x7d'])) := by
  have htail : ((m.map fun p => quoted p.1 ++ ":" ++ p.2.to_string).flatMap
      fun u => ',' :: u.toList) = members_tail m := by
    rw [List.flatMap_map]
    exact List.flatMap_congr fun p _ => by simp [quoted_text, Value.text]
  rw [Value.text, Value.to_string, texts_of_members_eq, List.map_cons, String.toList_append,
    String.toList_append, intercalate_text, htail]
  simp [quoted_text, Value.text]

theorem parse_any_number_head [FloatRead] {positive : Bool} {cs rest : List Char} {x : Number}
    (h : parse_any_number positive cs = some (x, rest)) :
    ∃ c tail, cs = c :: tail ∧ c.isDigit = true := by
  cases cs with
  | nil => cases h
  | cons c tail =>
    refine ⟨c, tail, rfl, Decidable.byContradiction fun hc => ?_⟩
    rw [parse_any_number, digits, List.takeWhile_cons_of_neg hc] at h
    cases h

theorem isDigit_ne {c d : Char} (h : c.isDigit = true) (hd : d.isDigit = false) : c ≠ d := by
  rintro rfl
  rw [h] at hd
  cases hd

theorem isDigit_not_space {c : Char} (h : c.isDigit = true) : is_space c = false := by
  simp only [is_space, Bool.or_eq_false_iff, beq_eq_false_iff_ne]
  exact ⟨⟨⟨isDigit_ne h (by decide), isDigit_ne h (by decide)⟩, isDigit_ne h (by decide)⟩,
    isDigit_ne h (by decide)⟩

theorem skip_space_cons {c : Char} (h : is_space c = false) (cs : List Char) :
    skip_space (c :: cs) = c :: cs := List.dropWhile_cons_of_neg (by simp [h])

theorem parse_value_number [FloatRead] {cs rest : List Char} {x : Number} (n depth : Nat)
    (h : parse_number cs = some (x, [])) (hrest : Stops rest) :
    parse_value (n + 1) depth (cs ++ rest) = some (.number x, rest) := by
  rw [parse_number.eq_def] at h
  split at h
  · rename_i tail
    have htail := parse_any_number_append hrest h
    rw [List.cons_append, parse_value, skip_space_cons (by decide)]
    dsimp only
    iterate 3 rw [if_neg (by decide)]
    rw [if_pos rfl, htail]
    rfl
  · obtain ⟨c, tail, hcs, hc⟩ := parse_any_number_head h
    have hall := parse_any_number_append hrest h
    rw [hcs, List.cons_append] at hall
    rw [hcs, List.cons_append, parse_value, skip_space_cons (isDigit_not_space hc)]
    dsimp only
    iterate 4 rw [if_neg (isDigit_ne hc (by decide))]
    rw [if_pos hc, hall]
    rfl

theorem parse_number_head [FloatRead] {cs rest : List Char} {x : Number}
    (h : parse_number cs = some (x, rest)) :
    ∃ c tail, cs = c :: tail ∧ is_space c = false ∧ c ≠ ']' := by
  rw [parse_number.eq_def] at h
  split at h
  · exact ⟨_, _, rfl, by decide, by decide⟩
  · obtain ⟨c, tail, hcs, hc⟩ := parse_any_number_head h
    exact ⟨c, tail, hcs, isDigit_not_space hc, isDigit_ne hc (by decide)⟩

/-- The text of a value starts neither with a space nor with the end of an array. -/
theorem text_head [FloatText] [FloatRead] {v : Value} (h : v.ReadsBack) :
    ∃ c tail, v.text = c :: tail ∧ is_space c = false ∧ c ≠ ']' := by
  cases v with
  | null => exact ⟨_, _, null_text, by decide, by decide⟩
  | bool b =>
    rw [bool_text]
    cases b with
    | true => exact ⟨_, _, rfl, by decide, by decide⟩
    | false => exact ⟨_, _, rfl, by decide, by decide⟩
  | number n =>
    rw [Value.ReadsBack] at h
    rw [number_text]
    exact parse_number_head (parse_number_text h)
  | string s => exact ⟨_, _, string_text s, by decide, by decide⟩
  | array items =>
    cases items with
    | nil => exact ⟨_, _, array_nil_text, by decide, by decide⟩
    | cons v vs => exact ⟨_, _, array_text v vs, by decide, by decide⟩
  | object members =>
    cases members with
    | nil => exact ⟨_, _, object_nil_text, by decide, by decide⟩
    | cons p m => exact ⟨_, _, object_text p.1 p.2 m, by decide, by decide⟩

theorem next_entry_first {close c : Char} (hspace : is_space c = false) (hclose : c ≠ close)
    (cs : List Char) : next_entry close true (c :: cs) = some (true, c :: cs) := by
  rw [next_entry, skip_space_cons hspace]
  dsimp only
  rw [if_neg hclose, if_pos rfl]

theorem next_entry_comma {close c : Char} (hspace : is_space c = false) (hclose : c ≠ close)
    (hcomma : ',' ≠ close) (cs : List Char) :
    next_entry close false (',' :: c :: cs) = some (true, c :: cs) := by
  rw [next_entry, skip_space_cons (by decide)]
  dsimp only
  rw [if_neg hcomma, if_neg (by decide), if_pos rfl, skip_space_cons hspace]
  dsimp only
  rw [if_neg hclose]

theorem next_entry_close {close : Char} (hspace : is_space close = false) (first : Bool)
    (cs : List Char) : next_entry close first (close :: cs) = some (false, cs) := by
  rw [next_entry, skip_space_cons hspace]
  exact if_pos rfl

theorem key_text (k : String) (rest : List Char) :
    key ('"' :: (escapes k.toList ++ '"' :: ':' :: rest)) = some (k, rest) := by
  rw [key, parse_str_quoted, Option.bind_some]
  dsimp only
  rw [skip_space_cons (by decide)]
  rfl

/-- The start of an array that is not too deep. -/
theorem parse_value_array [FloatRead] (n : Nat) {depth : Nat} (hdepth : 1 < depth)
    (cs : List Char) : parse_value (n + 1) depth ('[' :: cs) =
      (parse_items n (depth - 1) true cs).map fun (items, rest) => (.array items, rest) := by
  rw [parse_value, skip_space_cons (by decide)]
  dsimp only
  iterate 6 rw [if_neg (by decide)]
  rw [if_neg (Nat.not_le.mpr hdepth), if_pos rfl]

/-- The start of an object that is not too deep. -/
theorem parse_value_object [FloatRead] (n : Nat) {depth : Nat} (hdepth : 1 < depth)
    (cs : List Char) : parse_value (n + 1) depth ('\x7b' :: cs) =
      (parse_members n (depth - 1) true cs).map fun (members, rest) =>
        (.object (Map.insert_all [] members), rest) := by
  rw [parse_value, skip_space_cons (by decide)]
  dsimp only
  iterate 6 rw [if_neg (by decide)]
  rw [if_neg (Nat.not_le.mpr hdepth), if_neg (by decide), if_pos rfl]

theorem stops_comma (cs : List Char) : Stops (',' :: cs) := by simp [Stops]

/-- Behind an item stands a comma or the end of the array, and neither belongs to a number. -/
theorem stops_items_tail [FloatText] (vs : List Value) (rest : List Char) :
    Stops (items_tail vs ++ ']' :: rest) := by
  cases vs with
  | nil => simp [items_tail, Stops]
  | cons v vs => exact stops_comma _

theorem stops_members_tail [FloatText] (m : List (String × Value)) (rest : List Char) :
    Stops (members_tail m ++ '\x7d' :: rest) := by
  cases m with
  | nil => simp [members_tail, Stops]
  | cons p m => exact stops_comma _

mutual
/-- A value is read back from its text, whatever stands behind it. -/
theorem parse_value_text [FloatText] [FloatRead] : ∀ (v : Value) (n depth : Nat)
    (rest : List Char), v.ReadsBack → v.depth < depth → 2 * (v.text ++ rest).length ≤ n →
    Stops rest → parse_value n depth (v.text ++ rest) = some (v.stored, rest)
  | v, 0, _, rest, h, _, hn, _ => by
    obtain ⟨c, tail, htext, -⟩ := text_head h
    rw [htext, List.cons_append, List.length_cons] at hn
    omega
  | .null, n + 1, depth, rest, _, _, _, _ => by
    rw [null_text, Value.stored]
    · rfl
    all_goals simp
  | .bool b, n + 1, depth, rest, _, _, _, _ => by
    rw [bool_text, Value.stored]
    · cases b <;> rfl
    all_goals simp
  | .number x, n + 1, depth, rest, h, _, _, hrest => by
    rw [Value.ReadsBack] at h
    rw [number_text]
    exact parse_value_number n depth (parse_number_text h) hrest
  | .string s, n + 1, depth, rest, _, _, _, _ => by
    have hread := parse_str_quoted s rest
    rw [string_text, List.cons_append, List.append_assoc, parse_value, skip_space_cons (by decide)]
    dsimp only
    iterate 5 rw [if_neg (by decide)]
    rw [if_pos rfl]
    exact Option.map_eq_some_iff.mpr ⟨_, hread, rfl⟩
  | .array [], n + 1, depth, rest, _, hdepth, hn, _ => by
    rw [array_nil_text, List.length_append, List.length_cons] at hn
    rw [Value.depth] at hdepth
    rw [array_nil_text, List.cons_append, parse_value_array n (by omega)]
    cases n with
    | zero => omega
    | succ n => rfl
  | .array (v :: vs), n + 1, depth, rest, h, hdepth, hn, _ => by
    rw [Value.ReadsBack, Value.ItemsReadBack] at h
    rw [Value.depth, Value.depth_of_items] at hdepth
    have htext : (Value.array (v :: vs)).text ++ rest =
        '[' :: (v.text ++ (items_tail vs ++ ']' :: rest)) := by simp [array_text]
    rw [htext, List.length_cons] at hn
    rw [htext, parse_value_array n (by omega)]
    cases n with
    | zero => omega
    | succ n =>
      obtain ⟨c, tail, hhead, hspace, hclose⟩ := text_head h.1
      have hfirst : next_entry ']' true (v.text ++ (items_tail vs ++ ']' :: rest)) =
          some (true, v.text ++ (items_tail vs ++ ']' :: rest)) := by
        rw [hhead]
        exact next_entry_first hspace hclose _
      have hv := parse_value_text v n (depth - 1) (items_tail vs ++ ']' :: rest) h.1 (by omega)
        (by omega) (stops_items_tail vs rest)
      have hpos : 0 < v.text.length := by simp [hhead]
      rw [List.length_append] at hn
      have hvs := parse_items_text vs n (depth - 1) rest h.2 (by omega) (by omega)
      rw [parse_items, hfirst, Option.bind_some]
      dsimp only
      rw [if_pos rfl, hv, Option.bind_some]
      dsimp only
      rw [hvs]
      rfl
  | .object [], n + 1, depth, rest, _, hdepth, hn, _ => by
    rw [object_nil_text, List.length_append, List.length_cons] at hn
    rw [Value.depth] at hdepth
    rw [object_nil_text, List.cons_append, parse_value_object n (by omega)]
    cases n with
    | zero => omega
    | succ n => rfl
  | .object ((k, v) :: m), n + 1, depth, rest, h, hdepth, hn, _ => by
    rw [Value.ReadsBack, Value.MembersReadBack] at h
    obtain ⟨hvread, hmread⟩ := h
    rw [Value.depth, Value.depth_of_members] at hdepth
    have htext : (Value.object ((k, v) :: m)).text ++ rest =
        '\x7b' :: '"' :: (escapes k.toList ++ '"' :: ':' ::
          (v.text ++ (members_tail m ++ '\x7d' :: rest))) := by simp [object_text]
    rw [htext] at hn
    simp only [List.length_cons, List.length_append] at hn
    rw [htext, parse_value_object n (by omega)]
    cases n with
    | zero => omega
    | succ n =>
      have hv := parse_value_text v n (depth - 1) (members_tail m ++ '\x7d' :: rest) hvread
        (by omega) (by simp only [List.length_cons, List.length_append]; omega)
        (stops_members_tail m rest)
      have hm := parse_members_text m n (depth - 1) rest hmread (by omega)
        (by simp only [List.length_cons, List.length_append]; omega)
      rw [parse_members, next_entry_first (by decide) (by decide), Option.bind_some]
      dsimp only
      rw [if_pos rfl, key_text, Option.bind_some]
      dsimp only
      rw [hv, Option.bind_some]
      dsimp only
      rw [hm, Value.stored, Value.stored_members]
      rfl
theorem parse_items_text [FloatText] [FloatRead] : ∀ (vs : List Value) (n depth : Nat)
    (rest : List Char), Value.ItemsReadBack vs → Value.depth_of_items vs < depth →
    2 * (items_tail vs ++ ']' :: rest).length + 1 ≤ n →
    parse_items n depth false (items_tail vs ++ ']' :: rest) = some (Value.stored_items vs, rest)
  | _, 0, _, _, _, _, hn => by omega
  | [], n + 1, depth, rest, _, _, _ => by
    rw [parse_items]
    exact Option.bind_eq_some_iff.mpr ⟨_, next_entry_close (by decide) false rest, rfl⟩
  | v :: vs, n + 1, depth, rest, h, hdepth, hn => by
    rw [Value.ItemsReadBack] at h
    rw [Value.depth_of_items] at hdepth
    have htext : items_tail (v :: vs) ++ ']' :: rest =
        ',' :: (v.text ++ (items_tail vs ++ ']' :: rest)) := by simp [items_tail]
    rw [htext] at hn ⊢
    obtain ⟨c, tail, hhead, hspace, hclose⟩ := text_head h.1
    have hnext : next_entry ']' false (',' :: (v.text ++ (items_tail vs ++ ']' :: rest))) =
        some (true, v.text ++ (items_tail vs ++ ']' :: rest)) := by
      rw [hhead]
      exact next_entry_comma hspace hclose (by decide) _
    rw [List.length_cons, List.length_append] at hn
    have hv := parse_value_text v n depth (items_tail vs ++ ']' :: rest) h.1 (by omega)
      (by rw [List.length_append]; omega) (stops_items_tail vs rest)
    have hvs := parse_items_text vs n depth rest h.2 (by omega) (by omega)
    rw [parse_items, hnext, Option.bind_some]
    dsimp only
    rw [if_pos rfl, hv, Option.bind_some]
    dsimp only
    rw [hvs]
    rfl
theorem parse_members_text [FloatText] [FloatRead] : ∀ (m : List (String × Value)) (n depth : Nat)
    (rest : List Char), Value.MembersReadBack m → Value.depth_of_members m < depth →
    2 * (members_tail m ++ '\x7d' :: rest).length + 1 ≤ n →
    parse_members n depth false (members_tail m ++ '\x7d' :: rest) =
      some (Value.stored_members m, rest)
  | _, 0, _, _, _, _, hn => by omega
  | [], n + 1, depth, rest, _, _, _ => by
    rw [parse_members]
    exact Option.bind_eq_some_iff.mpr ⟨_, next_entry_close (by decide) false rest, rfl⟩
  | (k, v) :: m, n + 1, depth, rest, h, hdepth, hn => by
    rw [Value.MembersReadBack] at h
    rw [Value.depth_of_members] at hdepth
    have htext : members_tail ((k, v) :: m) ++ '\x7d' :: rest =
        ',' :: '"' :: (escapes k.toList ++ '"' :: ':' ::
          (v.text ++ (members_tail m ++ '\x7d' :: rest))) := by simp [members_tail]
    rw [htext] at hn ⊢
    simp only [List.length_cons, List.length_append] at hn
    have hv := parse_value_text v n depth (members_tail m ++ '\x7d' :: rest) h.1 (by omega)
      (by simp only [List.length_cons, List.length_append]; omega) (stops_members_tail m rest)
    have hm := parse_members_text m n depth rest h.2 (by omega)
      (by simp only [List.length_cons, List.length_append]; omega)
    rw [parse_members, next_entry_comma (by decide) (by decide) (by decide), Option.bind_some]
    dsimp only
    rw [if_pos rfl, key_text, Option.bind_some]
    dsimp only
    rw [hv, Option.bind_some]
    dsimp only
    rw [hm]
    rfl
end

/-- The parser undoes the printer, but for the order of the members. -/
theorem from_str_to_string [FloatText] [FloatRead] {v : Value} (h : v.ReadsBack)
    (hdepth : v.depth < 128) : from_str v.to_string = some v.stored := by
  have hread := parse_value_text v (2 * v.text.length) 128 [] h hdepth (by simp) trivial
  rw [List.append_nil, Value.text] at hread
  rw [from_str, hread]
  rfl

/-- An object that was read has its members in order. -/
theorem parse_value_ordered [FloatRead] {n depth : Nat} {cs rest : List Char} {m : Map}
    (h : parse_value n depth cs = some (.object m, rest)) : m.Ordered := by
  have hordered : ∀ es : List (String × Value), Map.Ordered (Map.insert_all [] es) := by
    intro es
    simp only [Map.insert_all, Map.insert_eq]
    exact btree.sorted_foldl_insert_entry es List.Pairwise.nil
  cases n with
  | zero => cases h
  | succ n =>
    unfold parse_value at h
    split at h
    · cases h
    · iterate 3
        split at h
        · obtain ⟨_, _, h⟩ := Option.map_eq_some_iff.mp h
          cases h
      iterate 3
        split at h
        · obtain ⟨⟨_, _⟩, _, h⟩ := Option.map_eq_some_iff.mp h
          cases h
      split at h
      · cases h
      split at h
      · obtain ⟨⟨_, _⟩, _, h⟩ := Option.map_eq_some_iff.mp h
        cases h
      split at h
      · obtain ⟨⟨es, _⟩, _, h⟩ := Option.map_eq_some_iff.mp h
        cases h
        exact hordered es
      · cases h

theorem from_str_ordered [FloatRead] {s : String} {m : Map} (h : from_str s = some (.object m)) :
    m.Ordered := by
  obtain ⟨⟨v, rest⟩, hv, h⟩ := Option.bind_eq_some_iff.mp h
  dsimp only at h
  split at h
  · cases h
    exact parse_value_ordered hv
  · cases h

/-! ## Values without doubles -/

/-- Where no number is a double, it does not matter how they are printed and read. -/
abbrev no_float_text : FloatText := ⟨fun _ => ""⟩

abbrev no_float_read : FloatRead := ⟨fun _ => none⟩

mutual
/-- No number of the value is a double. -/
def Value.Whole : Value → Prop
  | .number n => ∀ x, n ≠ .Float x
  | .array items => Value.ItemsWhole items
  | .object members => Value.MembersWhole members
  | _ => True
def Value.ItemsWhole : List Value → Prop
  | [] => True
  | v :: vs => v.Whole ∧ Value.ItemsWhole vs
def Value.MembersWhole : List (String × Value) → Prop
  | [] => True
  | (_, v) :: m => v.Whole ∧ Value.MembersWhole m
end

mutual
theorem Value.Whole.reads_back [FloatText] [FloatRead] : ∀ v : Value, v.Whole → v.ReadsBack
  | .null, _ | .bool _, _ | .string _, _ => by simp [Value.ReadsBack]
  | .number n, h => by
    rw [Value.Whole] at h
    rw [Value.ReadsBack]
    cases n with
    | Float x => exact absurd rfl (h x)
    | _ => trivial
  | .array items, h => by
    rw [Value.Whole] at h
    rw [Value.ReadsBack]
    exact Value.ItemsWhole.reads_back items h
  | .object members, h => by
    rw [Value.Whole] at h
    rw [Value.ReadsBack]
    exact Value.MembersWhole.reads_back members h
theorem Value.ItemsWhole.reads_back [FloatText] [FloatRead] : ∀ vs : List Value,
    Value.ItemsWhole vs → Value.ItemsReadBack vs
  | [], _ => by simp [Value.ItemsReadBack]
  | v :: vs, h => by
    rw [Value.ItemsWhole] at h
    rw [Value.ItemsReadBack]
    exact ⟨Value.Whole.reads_back v h.1, Value.ItemsWhole.reads_back vs h.2⟩
theorem Value.MembersWhole.reads_back [FloatText] [FloatRead] : ∀ m : List (String × Value),
    Value.MembersWhole m → Value.MembersReadBack m
  | [], _ => by simp [Value.MembersReadBack]
  | (k, v) :: m, h => by
    rw [Value.MembersWhole] at h
    rw [Value.MembersReadBack]
    exact ⟨Value.Whole.reads_back v h.1, Value.MembersWhole.reads_back m h.2⟩
end

/-- A text with no control character, so with no end of a line. -/
def NoControl (cs : List Char) : Prop := ∀ c ∈ cs, 32 ≤ c.toNat

theorem NoControl.of_all {cs : List Char} (h : cs.all (fun c => 32 ≤ c.toNat) = true) :
    NoControl cs := fun c hc => of_decide_eq_true (List.all_eq_true.mp h c hc)

theorem NoControl.cons {c : Char} {cs : List Char} (hc : 32 ≤ c.toNat) (h : NoControl cs) :
    NoControl (c :: cs) := List.forall_mem_cons.mpr ⟨hc, h⟩

theorem NoControl.append {cs ds : List Char} (hcs : NoControl cs) (hds : NoControl ds) :
    NoControl (cs ++ ds) := List.forall_mem_append.mpr ⟨hcs, hds⟩

theorem NoControl.not_mem {cs : List Char} (h : NoControl cs) {c : Char} (hc : c.toNat < 32) :
    c ∉ cs := fun hmem => Nat.not_lt.mpr (h c hmem) hc

theorem NoControl.of_digits {cs : List Char} (h : ∀ c ∈ cs, c.isDigit = true) : NoControl cs := by
  intro c hc
  have hdigit := (Char.isDigit_iff_toNat.mp (h c hc)).1
  have hzero : '0'.toNat = 48 := rfl
  omega

theorem no_control_escape_char (c : Char) : NoControl (escape_char c).toList := by
  have hhex : ∀ n < 16, 32 ≤ (Nat.digitChar n).toNat := by decide
  unfold escape_char
  split_ifs with _ _ _ _ _ _ _ hcontrol
  iterate 7 exact .of_all (by decide)
  · rw [String.toList_append]
    refine .append (.of_all (by decide)) ?_
    rw [String.toList_ofList]
    exact .cons (hhex _ (by omega)) (.cons (hhex _ (by omega)) (.of_all rfl))
  · rw [String.toList_ofList]
    exact .cons (Nat.not_lt.mp hcontrol) (.of_all rfl)

theorem no_control_escapes (cs : List Char) : NoControl (escapes cs) := by
  intro d hd
  obtain ⟨c, -, hd⟩ := List.mem_flatMap.mp hd
  exact no_control_escape_char c d hd

theorem no_control_number [FloatText] {n : Number} (h : ∀ x, n ≠ .Float x) :
    NoControl n.to_string.toList := by
  cases n with
  | PosInt n fits =>
    have htext : (Number.PosInt n fits).to_string.toList = Nat.toDigits 10 n := Nat.toList_repr
    rw [htext]
    exact .of_digits (toDigits_isDigit n)
  | NegInt i fits =>
    have htext : (Number.NegInt i fits).to_string.toList = '-' :: Nat.toDigits 10 (-i).toNat := by
      rw [Number.to_string, Int.toString_eq_repr, Int.repr_eq_if, if_neg (by omega)]
      simp [Nat.toList_repr]
    rw [htext]
    exact .cons (by decide) (.of_digits (toDigits_isDigit _))
  | Float x => exact absurd rfl (h x)

mutual
theorem Value.Whole.no_control [FloatText] : ∀ v : Value, v.Whole → NoControl v.text
  | .null, _ => by
    rw [null_text]
    exact .of_all (by decide)
  | .bool b, _ => by
    rw [bool_text]
    cases b <;> exact .of_all (by decide)
  | .string s, _ => by
    rw [string_text]
    exact .cons (by decide) (.append (no_control_escapes _) (.cons (by decide) (.of_all rfl)))
  | .number n, h => by
    rw [Value.Whole] at h
    rw [number_text]
    exact no_control_number h
  | .array [], _ => by
    rw [array_nil_text]
    exact .of_all (by decide)
  | .array (v :: vs), h => by
    rw [Value.Whole, Value.ItemsWhole] at h
    rw [array_text]
    exact .cons (by decide) (.append (.append (Value.Whole.no_control v h.1)
      (Value.ItemsWhole.no_control vs h.2)) (.cons (by decide) (.of_all rfl)))
  | .object [], _ => by
    rw [object_nil_text]
    exact .of_all (by decide)
  | .object ((k, v) :: m), h => by
    rw [Value.Whole, Value.MembersWhole] at h
    rw [object_text]
    exact .cons (by decide) (.cons (by decide) (.append (no_control_escapes _) (.cons (by decide)
      (.cons (by decide) (.append (.append (Value.Whole.no_control v h.1)
        (Value.MembersWhole.no_control m h.2)) (.cons (by decide) (.of_all rfl)))))))
theorem Value.ItemsWhole.no_control [FloatText] : ∀ vs : List Value,
    Value.ItemsWhole vs → NoControl (items_tail vs)
  | [], _ => NoControl.of_all rfl
  | v :: vs, h => by
    rw [Value.ItemsWhole] at h
    exact .append (.cons (by decide) (Value.Whole.no_control v h.1))
      (Value.ItemsWhole.no_control vs h.2)
theorem Value.MembersWhole.no_control [FloatText] : ∀ m : List (String × Value),
    Value.MembersWhole m → NoControl (members_tail m)
  | [], _ => NoControl.of_all rfl
  | (k, v) :: m, h => by
    rw [Value.MembersWhole] at h
    exact .append (.cons (by decide) (.cons (by decide) (.append (no_control_escapes _)
      (.cons (by decide) (.cons (by decide) (Value.Whole.no_control v h.1))))))
      (Value.MembersWhole.no_control m h.2)
end

end serde_json
