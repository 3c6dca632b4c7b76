-- The versions that the parser of `versioned.rs` accepts, beside the grammar
-- of a version. Every version of the grammar is parsed, and some other texts.
import Kaptein.McpAudit

open rust_str kaptein_cli.mcp

namespace kaptein_viewmodel.versioned

/-! ## The grammar -/

/-- A number, or two numbers with a dot between them. -/
inductive IsVersion : List Char → ApiVersion → Prop
  | major {cs : List Char} {n : Nat} (h : IsU32 cs n) : IsVersion cs ⟨n, 0⟩
  | minor {cs ds : List Char} {m n : Nat} (hmajor : IsU32 cs m) (hminor : IsU32 ds n) :
    IsVersion (cs ++ '.' :: ds) ⟨m, n⟩

/-- The text without the white space around it is a version, or a `v` and a version. -/
def Denotes (s : String) (v : ApiVersion) : Prop :=
  IsVersion (trim s).toList v ∨ ∃ body, (trim s).toList = 'v' :: body ∧ IsVersion body v

/-- What is parsed is the version that the text denotes, and a client that declares a text
without a version is refused. -/
structure Exact (s : String) : Prop where
  parses : ∀ v, parse_api_version s = some v ↔ Denotes s v
  refuses : (∀ v, ¬Denotes s v) → ∀ server, ∃ msg,
    check_declared_version server (some s) = .error msg

/-- The text that is split at the dots. -/
def version_text (s : String) : String := strip_prefix 'v' (trim s) |>.getD (trim s)

/-- The parser is not lenient here: where there is one dot at most and the part before it is
parsed, that part has no sign, and a part behind the dot is a number too. -/
def Strict (s : String) : Prop :=
  ∀ major rest, split '.' (version_text s) = major :: rest → rest.length ≤ 1 →
    (parse_u32 major.toList).isSome = true →
    major.toList.head? ≠ some '+' ∧ ∀ minor ∈ rest, ∃ n, IsU32 minor.toList n

/-! ## The parts of a text -/

theorem IsVersion.digit_first {cs : List Char} {v : ApiVersion} (h : IsVersion cs v) :
    ∃ c rest, cs = c :: rest ∧ c.isDigit = true := by
  have hnumber : ∀ {ds : List Char} {n : Nat}, IsU32 ds n →
      ∃ c rest, ds = c :: rest ∧ c.isDigit = true := by
    rintro (_ | ⟨c, rest⟩) n ⟨hne, hdigits, -⟩
    · exact absurd rfl hne
    · exact ⟨c, rest, rfl, hdigits c List.mem_cons_self⟩
  cases h with
  | major h => exact hnumber h
  | minor h _ =>
    obtain ⟨c, rest, rfl, hc⟩ := hnumber h
    exact ⟨c, _, rfl, hc⟩

theorem denotes_iff {s : String} {v : ApiVersion} :
    Denotes s v ↔ IsVersion (version_text s).toList v := by
  unfold Denotes version_text strip_prefix
  cases htext : (trim s).toList with
  | nil =>
    simp [htext]
  | cons c body =>
    by_cases hc : c = 'v'
    · subst hc
      have hno : ¬IsVersion ('v' :: body) v := by
        intro h
        obtain ⟨c, rest, heq, hc⟩ := h.digit_first
        cases heq
        cases hc
      simp [hno]
    · simp [hc, htext]

theorem dot_free {cs : List Char} {n : Nat} (h : IsU32 cs n) : '.' ∉ cs := h.not_mem (by decide)

theorem isVersion_iff {t : String} {v : ApiVersion} : IsVersion t.toList v ↔
    (∃ major, split '.' t = [major] ∧ IsU32 major.toList v.major ∧ v.minor = 0) ∨
      ∃ major minor, split '.' t = [major, minor] ∧ IsU32 major.toList v.major ∧
        IsU32 minor.toList v.minor := by
  constructor
  · intro h
    unfold split
    generalize t.toList = cs at h
    cases h with
    | major h =>
      rw [pieces_of_not_mem (dot_free h)]
      exact Or.inl ⟨_, rfl, by simpa using h, rfl⟩
    | minor hmajor hminor =>
      rw [pieces_append (dot_free hmajor), pieces_of_not_mem (dot_free hminor)]
      exact Or.inr ⟨_, _, rfl, by simpa using hmajor, by simpa using hminor⟩
  · obtain ⟨p, ps, hpieces, htext, -⟩ := pieces_eq '.' t.toList
    unfold split
    rw [hpieces]
    rintro (⟨major, hsplit, hmajor, hminor⟩ | ⟨major, minor, hsplit, hmajor, hminor⟩)
    · simp only [List.map_cons, List.cons.injEq, List.map_eq_nil_iff] at hsplit
      obtain ⟨rfl, rfl⟩ := hsplit
      obtain ⟨m, n⟩ := v
      subst hminor
      rw [htext]
      simpa using IsVersion.major hmajor
    · simp only [List.map_cons, List.cons.injEq, List.map_eq_cons_iff,
        List.map_eq_nil_iff] at hsplit
      obtain ⟨rfl, q, _, rfl, rfl, rfl⟩ := hsplit
      rw [htext]
      simpa using IsVersion.minor hmajor hminor

theorem parse_api_version_eq_some {s : String} {v : ApiVersion} : parse_api_version s = some v ↔
    (∃ major, split '.' (version_text s) = [major] ∧ parse_u32 major.toList = some v.major ∧
      v.minor = 0) ∨
      ∃ major minor, split '.' (version_text s) = [major, minor] ∧
        parse_u32 major.toList = some v.major ∧ (parse_u32 minor.toList).getD 0 = v.minor := by
  obtain ⟨m, n⟩ := v
  unfold parse_api_version version_text
  dsimp only
  generalize Option.getD _ (trim s) = t
  by_cases ht : t = ""
  · have hempty : split '.' "" = [""] := rfl
    have hnone : parse_u32 [] = none := rfl
    rw [if_pos ht, ht, hempty]
    simp [hnone]
  · rw [if_neg ht]
    split
    · rename_i major hsplit
      simp only [hsplit, Option.map_eq_some_iff, ApiVersion.mk.injEq, List.cons.injEq, and_true,
        reduceCtorEq, and_false, false_and, exists_false, or_false, exists_eq_left']
      simp [eq_comm]
    · rename_i major minor hsplit
      simp [hsplit]
    · rename_i hone htwo
      constructor
      · intro h
        cases h
      · rintro (⟨major, hsplit, -⟩ | ⟨major, minor, hsplit, -⟩)
        · exact absurd hsplit (hone major)
        · exact absurd hsplit (htwo major minor)

/-! ## What is parsed -/

/-- No version of the grammar is refused. -/
theorem parse_of_denotes {s : String} {v : ApiVersion} (h : Denotes s v) :
    parse_api_version s = some v := by
  rw [parse_api_version_eq_some]
  rcases isVersion_iff.mp (denotes_iff.mp h) with
    ⟨major, hsplit, hmajor, hminor⟩ | ⟨major, minor, hsplit, hmajor, hminor⟩
  · exact Or.inl ⟨major, hsplit, parse_u32_of_isU32 hmajor, hminor⟩
  · exact Or.inr ⟨major, minor, hsplit, parse_u32_of_isU32 hmajor,
      by rw [parse_u32_of_isU32 hminor]; rfl⟩

theorem parse_u32_unsigned {cs : List Char} {n : Nat} (h : parse_u32 cs = some n)
    (hsign : cs.head? ≠ some '+') : IsU32 cs n := by
  rcases parse_u32_eq_some.mp h with h | ⟨ds, rfl, -⟩
  · exact h
  · exact absurd rfl hsign

theorem denotes_of_strict {s : String} {v : ApiVersion} (hstrict : Strict s)
    (h : parse_api_version s = some v) : Denotes s v := by
  rw [denotes_iff, isVersion_iff]
  rcases parse_api_version_eq_some.mp h with
    ⟨major, hsplit, hmajor, hminor⟩ | ⟨major, minor, hsplit, hmajor, hminor⟩
  · obtain ⟨hsign, -⟩ := hstrict major [] hsplit (by simp) (by rw [hmajor]; rfl)
    exact Or.inl ⟨major, hsplit, parse_u32_unsigned hmajor hsign, hminor⟩
  · obtain ⟨hsign, hrest⟩ := hstrict major [minor] hsplit (by simp) (by rw [hmajor]; rfl)
    obtain ⟨n, hn⟩ := hrest minor (List.mem_singleton_self minor)
    rw [parse_u32_of_isU32 hn, Option.getD_some] at hminor
    rw [hminor] at hn
    exact Or.inr ⟨major, minor, hsplit, parse_u32_unsigned hmajor hsign, hn⟩

/-- Where the parser is lenient, it gives a version to a text that denotes none. -/
theorem strict_of_parses {s : String}
    (h : ∀ v, parse_api_version s = some v → Denotes s v) : Strict s := by
  intro major rest hsplit hlen hparsed
  obtain ⟨m, hm⟩ := Option.isSome_iff_exists.mp hparsed
  have hsign : ∀ {n}, IsU32 major.toList n → major.toList.head? ≠ some '+' := by
    intro n hn hhead
    exact hn.not_mem (by decide : '+'.isDigit = false) (List.mem_of_head? hhead)
  rcases rest with _ | ⟨minor, _ | ⟨_, _⟩⟩
  · have hdenotes := h ⟨m, 0⟩ (parse_api_version_eq_some.mpr (Or.inl ⟨major, hsplit, hm, rfl⟩))
    rw [denotes_iff, isVersion_iff, hsplit] at hdenotes
    rcases hdenotes with ⟨_, heq, hmajor, -⟩ | ⟨_, _, heq, -⟩
    · cases heq
      exact ⟨hsign hmajor, by simp⟩
    · cases heq
  · have hdenotes := h ⟨m, (parse_u32 minor.toList).getD 0⟩
      (parse_api_version_eq_some.mpr (Or.inr ⟨major, minor, hsplit, hm, rfl⟩))
    rw [denotes_iff, isVersion_iff, hsplit] at hdenotes
    rcases hdenotes with ⟨_, heq, -⟩ | ⟨_, _, heq, hmajor, hminor⟩
    · cases heq
    · cases heq
      exact ⟨hsign hmajor, by simpa using ⟨_, hminor⟩⟩
  · simp at hlen

theorem refused_of_none {s : String} (h : parse_api_version s = none) (server : Server) :
    ∃ msg, check_declared_version server (some s) = .error msg := by
  unfold check_declared_version
  simp [h]

theorem exact_of_parses {s : String} (h : ∀ v, parse_api_version s = some v → Denotes s v) :
    Exact s := by
  refine ⟨fun v => ⟨h v, parse_of_denotes⟩, ?_⟩
  intro hno server
  apply refused_of_none
  rw [Option.eq_none_iff_forall_ne_some]
  intro v hv
  exact hno v (h v hv)

/-! ## The text of a version -/

theorem not_whitespace_of_isDigit {c : Char} (h : c.isDigit = true) : is_whitespace c = false := by
  have h0 : '0'.toNat = 48 := rfl
  have h9 : '9'.toNat = 57 := rfl
  rw [Char.isDigit_iff_toNat] at h
  rw [Bool.eq_false_iff]
  intro hspace
  simp only [is_whitespace, Bool.or_eq_true, Bool.and_eq_true, decide_eq_true_eq,
    beq_iff_eq] at hspace
  omega

theorem not_whitespace_of_number {n : Nat} {c : Char} (h : c ∈ (toString n).toList) :
    is_whitespace c = false := by
  have hdigits : (toString n).toList = Nat.toDigits 10 n := Nat.toList_repr
  rw [hdigits] at h
  exact not_whitespace_of_isDigit (Nat.isDigit_of_mem_toDigits (by decide) (by decide) h)

theorem display_text (v : ApiVersion) : v.display.toList = 'v' :: ((toString v.major).toList ++
    if v.minor = 0 then [] else '.' :: (toString v.minor).toList) := by
  unfold ApiVersion.display
  split <;> simp

theorem trim_display (v : ApiVersion) : trim v.display = v.display := by
  have hv : is_whitespace 'v' = false := by decide
  have hdot : is_whitespace '.' = false := by decide
  apply trim_of_none
  rw [display_text]
  intro c hc
  rcases List.mem_cons.mp hc with rfl | hc
  · exact hv
  · rcases List.mem_append.mp hc with hc | hc
    · exact not_whitespace_of_number hc
    · split at hc
      · cases hc
      · rcases List.mem_cons.mp hc with rfl | hc
        · exact hdot
        · exact not_whitespace_of_number hc

theorem denotes_display {v : ApiVersion} (hmajor : v.major < 2 ^ 32) (hminor : v.minor < 2 ^ 32) :
    Denotes v.display v := by
  obtain ⟨m, n⟩ := v
  unfold Denotes
  rw [trim_display, display_text]
  refine Or.inr ⟨_, rfl, ?_⟩
  dsimp only
  split
  · rename_i hzero
    subst hzero
    rw [List.append_nil]
    exact .major (isU32_repr hmajor)
  · exact .minor (isU32_repr hmajor) (isU32_repr hminor)

theorem parse_u32_lt {cs : List Char} {n : Nat} (h : parse_u32 cs = some n) : n < 2 ^ 32 := by
  rcases parse_u32_eq_some.mp h with h | ⟨_, -, h⟩
  · exact h.2.2.2
  · exact h.2.2.2

theorem fits_of_parsed {s : String} {v : ApiVersion} (h : parse_api_version s = some v) :
    v.major < 2 ^ 32 ∧ v.minor < 2 ^ 32 := by
  rcases parse_api_version_eq_some.mp h with
    ⟨major, -, hmajor, hminor⟩ | ⟨major, minor, -, hmajor, hminor⟩
  · exact ⟨parse_u32_lt hmajor, by omega⟩
  · refine ⟨parse_u32_lt hmajor, ?_⟩
    rw [← hminor]
    cases hparsed : parse_u32 minor.toList with
    | none => simp
    | some n => exact parse_u32_lt hparsed

/-- The parser accepts the texts of the grammar and no other ones exactly where it is not
lenient, and it reads back each version whose two numbers are `u32`s. -/
theorem parse_api_version_exact_iff (s : String) (v : ApiVersion) : (Exact s ↔ Strict s) ∧
    (parse_api_version v.display = some v ↔ v.major < 2 ^ 32 ∧ v.minor < 2 ^ 32) := by
  constructor
  · constructor
    · intro h
      exact strict_of_parses fun v hv => (h.parses v).mp hv
    · intro h
      exact exact_of_parses fun v hv => denotes_of_strict h hv
  · constructor
    · exact fits_of_parsed
    · rintro ⟨hmajor, hminor⟩
      exact parse_of_denotes (denotes_display hmajor hminor)

/-- A minor version that is no number is read as 0. -/
theorem a_minor_of_letters_is_accepted : ¬∀ s, Exact s := by
  intro h
  have hparsed : parse_api_version "1.x" = some ⟨1, 0⟩ := by decide
  have hdenotes := ((h "1.x").parses ⟨1, 0⟩).mp hparsed
  have hsplit : split '.' (version_text "1.x") = ["1", "x"] := by decide
  rw [denotes_iff, isVersion_iff, hsplit] at hdenotes
  rcases hdenotes with ⟨_, heq, -⟩ | ⟨_, _, heq, -, hminor⟩
  · cases heq
  · cases heq
    have hdigit := hminor.2.1 'x' (by decide)
    revert hdigit
    decide

end kaptein_viewmodel.versioned
