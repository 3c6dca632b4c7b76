-- Bytes as a text in UTF-8, as `String::from_utf8_lossy` reads them: each longest start of
-- a character that is not gone on with, and each byte that starts none, becomes U+FFFD.
import Mathlib.Data.List.Chain

namespace lossy_utf8

def REPLACEMENT : Char := '\uFFFD'

/-- The second bytes that a first byte leaves open. Every later byte is of the first kind. -/
inductive Second where
  | any
  | from_a0
  | to_9f
  | from_90
  | to_8f
  deriving DecidableEq

def Second.fits : Second → UInt8 → Bool
  | .any, b => 0x80 ≤ b && b ≤ 0xBF
  | .from_a0, b => 0xA0 ≤ b && b ≤ 0xBF
  | .to_9f, b => 0x80 ≤ b && b ≤ 0x9F
  | .from_90, b => 0x90 ≤ b && b ≤ 0xBF
  | .to_8f, b => 0x80 ≤ b && b ≤ 0x8F

/-- A character whose first bytes have come: their bits, what fits next, and how many bytes
come after that one. -/
structure Started where
  code : Nat
  next : Second
  later : Nat
  deriving DecidableEq

/-- A byte between two characters. -/
def start (b : UInt8) : List Char × Option Started :=
  if b < 0x80 then ([Char.ofNat b.toNat], none)
  else if 0xC2 ≤ b && b ≤ 0xDF then ([], some ⟨b.toNat % 32, .any, 0⟩)
  else if b == 0xE0 then ([], some ⟨b.toNat % 16, .from_a0, 1⟩)
  else if b == 0xED then ([], some ⟨b.toNat % 16, .to_9f, 1⟩)
  else if 0xE1 ≤ b && b ≤ 0xEF then ([], some ⟨b.toNat % 16, .any, 1⟩)
  else if b == 0xF0 then ([], some ⟨b.toNat % 8, .from_90, 2⟩)
  else if 0xF1 ≤ b && b ≤ 0xF3 then ([], some ⟨b.toNat % 8, .any, 2⟩)
  else if b == 0xF4 then ([], some ⟨b.toNat % 8, .to_8f, 2⟩)
  else ([REPLACEMENT], none)

/-- A byte that goes on with a character. -/
def Started.go_on (s : Started) (b : UInt8) : List Char × Option Started :=
  let code := s.code * 64 + b.toNat % 64
  match s.later with
  | 0 => ([Char.ofNat code], none)
  | later + 1 => ([], some ⟨code, .any, later⟩)

def push : Option Started → UInt8 → List Char × Option Started
  | none, b => start b
  | some s, b => if s.next.fits b then s.go_on b else (REPLACEMENT :: (start b).1, (start b).2)

/-- The characters that are read for certain, and the one that is started at the end. -/
def run : Option Started → List UInt8 → List Char × Option Started
  | p, [] => ([], p)
  | p, b :: bs =>
    ((push p b).1 ++ (run (push p b).2 bs).1, (run (push p b).2 bs).2)

/-- The end of the bytes. -/
def flush : Option Started → List Char
  | none => []
  | some _ => [REPLACEMENT]

def decode (p : Option Started) (bytes : List UInt8) : List Char :=
  (run p bytes).1 ++ flush (run p bytes).2

def from_utf8_lossy (bytes : List UInt8) : String := String.ofList (decode none bytes)

/-- The first part ends inside a character, or the start of one, that the second goes on with. -/
def continues (a b : List UInt8) : Bool :=
  match (run none a).2, b.head? with
  | some s, some c => s.next.fits c
  | _, _ => false

/-! ## Two parts -/

theorem run_append (p : Option Started) (a b : List UInt8) :
    run p (a ++ b) = ((run p a).1 ++ (run (run p a).2 b).1, (run (run p a).2 b).2) := by
  induction a generalizing p with
  | nil => rfl
  | cons c a ih =>
    rw [List.cons_append, run, ih]
    simp [run]

theorem decode_append (p : Option Started) (a b : List UInt8) :
    decode p (a ++ b) = (run p a).1 ++ decode (run p a).2 b := by
  unfold decode
  rw [run_append, List.append_assoc]

theorem decode_cons (p : Option Started) (b : UInt8) (bs : List UInt8) :
    decode p (b :: bs) = (push p b).1 ++ decode (push p b).2 bs := by
  simp [decode, run]

/-- What goes on with a character starts none. -/
theorem start_of_fits {s : Second} {b : UInt8} (h : s.fits b = true) :
    start b = ([REPLACEMENT], none) := by
  have hbounds : 0x80 ≤ b.toNat ∧ b.toNat ≤ 0xBF := by
    cases s <;>
    · simp only [Second.fits, Bool.and_eq_true, decide_eq_true_eq, UInt8.le_iff_toNat_le,
        UInt8.reduceToNat] at h
      omega
  unfold start
  simp only [UInt8.lt_iff_toNat_lt, UInt8.le_iff_toNat_le, UInt8.reduceToNat, Bool.and_eq_true,
    decide_eq_true_eq, beq_iff_eq, ← UInt8.toNat_inj]
  iterate 8 rw [if_neg (by omega)]

@[simp] theorem decode_nil (p : Option Started) : decode p [] = flush p := rfl

/-- Where a character is not gone on with, the rest is read as if nothing were started. -/
theorem decode_apart {s : Started} {b : UInt8} (h : s.next.fits b = false) (bs : List UInt8) :
    decode (some s) (b :: bs) = REPLACEMENT :: decode none (b :: bs) := by
  rw [decode_cons, decode_cons]
  simp [push, h]

theorem length_go_on (s : Started) (b : UInt8) :
    (s.go_on b).2 = none ∧ (s.go_on b).1.length = 1 ∨
      ∃ t, (s.go_on b).2 = some t ∧ (s.go_on b).1 = [] := by
  unfold Started.go_on
  cases s.later with
  | zero => exact Or.inl ⟨rfl, rfl⟩
  | succ later => exact Or.inr ⟨_, rfl, rfl⟩

/-- Where a character is gone on with, reading it in one piece gives less. -/
theorem length_going_on {s : Started} {b : UInt8} {bs : List UInt8} (h : s.next.fits b = true)
    (hrest : ∀ t, (decode (some t) bs).length ≤ (decode none bs).length + 1) :
    (decode (some s) (b :: bs)).length ≤ (decode none (b :: bs)).length := by
  have hnone : decode none (b :: bs) = REPLACEMENT :: decode none bs := by
    rw [decode_cons, push, start_of_fits h]
    rfl
  rw [hnone, decode_cons, List.length_append, List.length_cons]
  simp only [push, h, if_true]
  rcases length_go_on s b with ⟨hdone, hone⟩ | ⟨t, hmore, hnil⟩
  · rw [hdone, hone, Nat.add_comm]
  · rw [hmore, hnil, List.length_nil, Nat.zero_add]
    exact hrest t

/-- A started character comes to one more character at most. -/
theorem length_decode_started (s : Started) (bytes : List UInt8) :
    (decode (some s) bytes).length ≤ (decode none bytes).length + 1 := by
  induction bytes generalizing s with
  | nil => exact Nat.le_refl _
  | cons b bs ih =>
    cases hfits : s.next.fits b with
    | false => rw [decode_apart hfits, List.length_cons]
    | true => exact Nat.le_succ_of_le (length_going_on hfits ih)

/-- Two parts that are apart are read one by one. -/
theorem decode_of_apart {a b : List UInt8} (h : continues a b = false) :
    decode none (a ++ b) = decode none a ++ decode none b := by
  have ha : decode none a = (run none a).1 ++ flush (run none a).2 := rfl
  rw [decode_append, ha, List.append_assoc]
  congr 1
  cases hp : (run none a).2 with
  | none => rfl
  | some s =>
    cases b with
    | nil => simp [flush]
    | cons c bs =>
      have hfits : s.next.fits c = false := by
        unfold continues at h
        rw [hp] at h
        exact h
      exact decode_apart hfits bs

/-- A cut inside a character gives more characters. -/
theorem length_of_continues {a b : List UInt8} (h : continues a b = true) :
    (decode none (a ++ b)).length < (decode none a ++ decode none b).length := by
  have ha : decode none a = (run none a).1 ++ flush (run none a).2 := rfl
  rw [decode_append, ha, List.append_assoc, List.length_append, List.length_append]
  apply Nat.add_lt_add_left
  unfold continues at h
  cases hp : (run none a).2 with
  | none =>
    rw [hp] at h
    cases h
  | some s =>
    cases b with
    | nil =>
      rw [hp] at h
      cases h
    | cons c bs =>
      rw [hp] at h
      have hless := length_going_on h (length_decode_started · bs)
      rw [List.length_append]
      simp only [flush, List.length_singleton]
      omega

theorem length_decode_append (a b : List UInt8) :
    (decode none (a ++ b)).length ≤ (decode none a ++ decode none b).length := by
  cases h : continues a b with
  | false => rw [decode_of_apart h]
  | true => exact Nat.le_of_lt (length_of_continues h)

/-! ## Many parts -/

/-- No part is gone on with by the next one. -/
def Apart (parts : List (List UInt8)) : Prop := parts.IsChain fun a b => continues a b = false

instance (parts : List (List UInt8)) : Decidable (Apart parts) :=
  inferInstanceAs (Decidable (parts.IsChain _))

theorem continues_append {b : List UInt8} (hb : b ≠ []) (a c : List UInt8) :
    continues a (b ++ c) = continues a b := by
  obtain ⟨x, b, rfl⟩ := List.exists_cons_of_ne_nil hb
  rfl

theorem length_decode_parts (parts : List (List UInt8)) :
    (decode none parts.flatten).length ≤ (parts.flatMap (decode none)).length := by
  induction parts with
  | nil => exact Nat.le_refl _
  | cons a parts ih =>
    have hsplit := length_decode_append a parts.flatten
    rw [List.flatten_cons, List.flatMap_cons, List.length_append]
    rw [List.length_append] at hsplit
    omega

/-- Reading part by part gives the text of the whole exactly when the parts are apart. -/
theorem decode_parts_iff {parts : List (List UInt8)} (h : ∀ a ∈ parts, a ≠ []) :
    parts.flatMap (decode none) = decode none parts.flatten ↔ Apart parts := by
  induction parts with
  | nil => exact iff_of_true rfl .nil
  | cons a parts ih =>
    cases parts with
    | nil =>
      refine iff_of_true ?_ (.singleton a)
      simp
    | cons b parts =>
      obtain ⟨-, hrest⟩ := List.forall_mem_cons.mp h
      have hb : b ≠ [] := (List.forall_mem_cons.mp hrest).1
      have hnext : continues a (b :: parts).flatten = continues a b := by
        rw [List.flatten_cons, continues_append hb]
      have hrest_iff := ih hrest
      unfold Apart at hrest_iff ⊢
      rw [List.isChain_cons_cons, ← hrest_iff, List.flatMap_cons, List.flatten_cons]
      cases hcut : continues a b with
      | false =>
        rw [decode_of_apart (hnext.trans hcut), List.append_cancel_left_eq]
        exact (and_iff_right rfl).symm
      | true =>
        refine iff_of_false ?_ (fun hand => absurd hand.1 (by decide))
        intro heq
        have hless := length_of_continues (hnext.trans hcut)
        have hparts := length_decode_parts (b :: parts)
        rw [← heq, List.length_append, List.length_append] at hless
        omega

/-! ## Texts -/

theorem toNat_byte {n : Nat} (h : n < 256) : (UInt8.ofNat n).toNat = n :=
  UInt8.toNat_ofNat_of_lt' h

/-- The six bits of a second byte that fits lie between these. -/
def Second.low : Second → Nat
  | .from_a0 => 32
  | .from_90 => 16
  | .any | .to_9f | .to_8f => 0

def Second.high : Second → Nat
  | .to_9f => 32
  | .to_8f => 16
  | .any | .from_a0 | .from_90 => 64

/-- The byte that `String.utf8EncodeChar` writes for six bits. -/
theorem fits_six_bits {second : Second} {n : Nat} (hlow : second.low ≤ n)
    (hhigh : n < second.high) : second.fits (UInt8.ofNat (n + 0x80)) = true := by
  have hn : n < 64 := by
    cases second <;>
    · simp only [Second.high] at hhigh
      omega
  have hb : (UInt8.ofNat (n + 0x80)).toNat = n + 0x80 := toNat_byte (by omega)
  cases second <;>
  · simp only [Second.low, Second.high] at hlow hhigh
    simp only [Second.fits, UInt8.le_iff_toNat_le, hb, UInt8.reduceToNat, Bool.and_eq_true,
      decide_eq_true_eq]
    omega

theorem fits_any {n : Nat} (h : n < 64) : Second.any.fits (UInt8.ofNat (n + 0x80)) = true :=
  fits_six_bits (Nat.zero_le n) h

theorem start_one {n : Nat} (h : n < 128) : start (UInt8.ofNat n) = ([Char.ofNat n], none) := by
  have hb : (UInt8.ofNat n).toNat = n := toNat_byte (by omega)
  have hlt : UInt8.ofNat n < 0x80 := by
    rw [UInt8.lt_iff_toNat_lt, hb]
    exact h
  unfold start
  rw [if_pos hlt, hb]

theorem start_two {n : Nat} (hlong : 2 ≤ n) (hn : n < 32) :
    start (UInt8.ofNat (n + 0xC0)) = ([], some ⟨n, .any, 0⟩) := by
  have hb : (UInt8.ofNat (n + 0xC0)).toNat = n + 0xC0 := toNat_byte (by omega)
  have hcode : (n + 0xC0) % 32 = n := by omega
  unfold start
  simp only [UInt8.lt_iff_toNat_lt, UInt8.le_iff_toNat_le, UInt8.reduceToNat, Bool.and_eq_true,
    decide_eq_true_eq, hb, hcode]
  rw [if_neg (by omega), if_pos (by omega)]

theorem start_three {n m : Nat} (hn : n < 16) (hm : m < 64) (hlong : 0 < n ∨ 32 ≤ m)
    (hscalar : n ≠ 13 ∨ m < 32) :
    ∃ second : Second, start (UInt8.ofNat (n + 0xE0)) = ([], some ⟨n, second, 1⟩) ∧
      second.fits (UInt8.ofNat (m + 0x80)) = true := by
  have hb : (UInt8.ofNat (n + 0xE0)).toNat = n + 0xE0 := toNat_byte (by omega)
  have hcode : (n + 0xE0) % 16 = n := by omega
  unfold start
  simp only [UInt8.lt_iff_toNat_lt, UInt8.le_iff_toNat_le, UInt8.reduceToNat, Bool.and_eq_true,
    decide_eq_true_eq, beq_iff_eq, ← UInt8.toNat_inj, hb, hcode]
  rw [if_neg (by omega), if_neg (by omega)]
  split_ifs
  · have hlow : 32 ≤ m := by omega
    exact ⟨_, rfl, fits_six_bits hlow hm⟩
  · have hhigh : m < 32 := by omega
    exact ⟨_, rfl, fits_six_bits (Nat.zero_le m) hhigh⟩
  · exact ⟨_, rfl, fits_any hm⟩
  all_goals omega

theorem start_four {n m : Nat} (hn : n < 5) (hm : m < 64) (hlong : 0 < n ∨ 16 ≤ m)
    (hscalar : n ≠ 4 ∨ m < 16) :
    ∃ second : Second, start (UInt8.ofNat (n + 0xF0)) = ([], some ⟨n, second, 2⟩) ∧
      second.fits (UInt8.ofNat (m + 0x80)) = true := by
  have hb : (UInt8.ofNat (n + 0xF0)).toNat = n + 0xF0 := toNat_byte (by omega)
  have hcode : (n + 0xF0) % 8 = n := by omega
  unfold start
  simp only [UInt8.lt_iff_toNat_lt, UInt8.le_iff_toNat_le, UInt8.reduceToNat, Bool.and_eq_true,
    decide_eq_true_eq, beq_iff_eq, ← UInt8.toNat_inj, hb, hcode]
  iterate 5 rw [if_neg (by omega)]
  split_ifs
  · have hlow : 16 ≤ m := by omega
    exact ⟨_, rfl, fits_six_bits hlow hm⟩
  · exact ⟨_, rfl, fits_any hm⟩
  · have hhigh : m < 16 := by omega
    exact ⟨_, rfl, fits_six_bits (Nat.zero_le m) hhigh⟩
  all_goals omega

theorem push_last {code n : Nat} {second : Second} (hn : n < 64)
    (h : second.fits (UInt8.ofNat (n + 0x80)) = true) (bytes : List UInt8) :
    decode (some ⟨code, second, 0⟩) (UInt8.ofNat (n + 0x80) :: bytes) =
      Char.ofNat (code * 64 + n) :: decode none bytes := by
  have hbits : (UInt8.ofNat (n + 0x80)).toNat % 64 = n := by
    rw [toNat_byte (by omega)]
    omega
  rw [decode_cons]
  simp only [push, h, if_true, Started.go_on, hbits]
  rfl

theorem push_more {code n later : Nat} {second : Second} (hn : n < 64)
    (h : second.fits (UInt8.ofNat (n + 0x80)) = true) (bytes : List UInt8) :
    decode (some ⟨code, second, later + 1⟩) (UInt8.ofNat (n + 0x80) :: bytes) =
      decode (some ⟨code * 64 + n, .any, later⟩) bytes := by
  have hbits : (UInt8.ofNat (n + 0x80)).toNat % 64 = n := by
    rw [toNat_byte (by omega)]
    omega
  rw [decode_cons]
  simp only [push, h, if_true, Started.go_on, hbits]
  rfl

theorem decode_start {b : UInt8} {s : Started} (h : start b = ([], some s)) (bytes : List UInt8) :
    decode none (b :: bytes) = decode (some s) bytes := by
  rw [decode_cons, push, h]
  rfl

/-- A character is read back from its bytes. -/
theorem decode_utf8EncodeChar (c : Char) (bytes : List UInt8) :
    decode none (String.utf8EncodeChar c ++ bytes) = c :: decode none bytes := by
  have hvalid : c.val.toNat < 0xD800 ∨ 0xDFFF < c.val.toNat ∧ c.val.toNat < 0x110000 := c.valid
  have hchar : Char.ofNat c.val.toNat = c := Char.ofNat_toNat c
  unfold String.utf8EncodeChar
  generalize c.val.toNat = v at hvalid hchar
  dsimp only
  split_ifs with hone htwo hthree
  · rw [List.singleton_append, decode_cons, push, start_one (by omega), hchar]
    rfl
  · have hsum : v / 64 * 64 + v % 64 = v := by omega
    rw [List.cons_append, Nat.mod_eq_of_lt (by omega : v / 64 < 32),
      decode_start (start_two (by omega) (by omega)), List.singleton_append,
      push_last (by omega) (fits_any (by omega)), hsum, hchar]
  · obtain ⟨second, hstart, hfits⟩ := @start_three (v / 4096 % 16) (v / 64 % 64) (by omega)
      (by omega) (by omega) (by omega)
    have hsum : (v / 4096 % 16 * 64 + v / 64 % 64) * 64 + v % 64 = v := by omega
    rw [List.cons_append, decode_start hstart, List.cons_append, push_more (by omega) hfits,
      List.singleton_append, push_last (by omega) (fits_any (by omega)), hsum, hchar]
  · obtain ⟨second, hstart, hfits⟩ := @start_four (v / 262144 % 8) (v / 4096 % 64) (by omega)
      (by omega) (by omega) (by omega)
    have hsum : ((v / 262144 % 8 * 64 + v / 4096 % 64) * 64 + v / 64 % 64) * 64 + v % 64 = v := by
      omega
    rw [List.cons_append, decode_start hstart, List.cons_append, push_more (by omega) hfits,
      List.cons_append, push_more (by omega) (fits_any (by omega)), List.singleton_append,
      push_last (by omega) (fits_any (by omega)), hsum, hchar]

theorem decode_utf8Encode (cs : List Char) :
    decode none (cs.flatMap String.utf8EncodeChar) = cs := by
  induction cs with
  | nil => rfl
  | cons c cs ih => rw [List.flatMap_cons, decode_utf8EncodeChar, ih]

end lossy_utf8
