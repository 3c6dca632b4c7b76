-- The two readers of a field path (`lens.rs`). The check of a path and its
-- resolution take the subscripts off the end of a segment, and both are held
-- against a reader that goes from left to right.
import Kaptein.Lib.JsonPath
import Kaptein.Loader

open serde_json rust_str kaptein_viewmodel.lens

namespace kaptein_viewmodel.viewdef

/-! ## A path from left to right -/

/-- What the reader is in: a name so far, the number of a subscript so far, or
the place after a subscript. -/
inductive Reading where
  | name (cs : List Char)
  | index (n : Nat)
  | between

def next_digit (n : Nat) (c : Char) : Nat := 10 * n + (c.toNat - 48)

/-- A name ends at a dot or an opening bracket, a number at the closing one. -/
def read_path : Reading → List Char → List Step
  | .name cs, [] => [.field (String.ofList cs)]
  | .name cs, c :: rest =>
    if c = '.' then .field (String.ofList cs) :: read_path (.name []) rest
    else if c = '[' then .field (String.ofList cs) :: read_path (.index 0) rest
    else read_path (.name (cs ++ [c])) rest
  | .index _, [] => []
  | .index n, c :: rest =>
    if c = ']' then .index n :: read_path .between rest
    else read_path (.index (next_digit n c)) rest
  | .between, [] => []
  | .between, c :: rest =>
    if c = '.' then read_path (.name []) rest
    else if c = '[' then read_path (.index 0) rest
    else read_path .between rest

def path_steps (field : String) : List Step := read_path (.name []) field.toList

/-! ## The shape of a segment -/

/-- What Unicode says of the brackets: they are no letters and no numbers. -/
structure BracketsApart [AlphanumericTable] : Prop where
  open_ : is_alphanumeric '[' = false
  close : is_alphanumeric ']' = false

def digits_number (ds : List Char) : Nat := ds.foldl next_digit 0

def brackets (subs : List (List Char)) : List Char := subs.flatMap fun ds => '[' :: (ds ++ [']'])

/-- A name without brackets, then subscripts of digits. -/
structure SegmentShape (seg ident : List Char) (subs : List (List Char)) : Prop where
  eq : seg = ident ++ brackets subs
  no_open : '[' ∉ ident
  no_close : ']' ∉ ident
  digits : ∀ ds ∈ subs, ds ≠ [] ∧ ∀ c ∈ ds, c.isDigit = true

theorem brackets_concat (subs : List (List Char)) (ds : List Char) :
    brackets (subs ++ [ds]) = brackets subs ++ '[' :: (ds ++ [']']) := by
  simp [brackets]

theorem getLast?_after_bracket (xs ds : List Char) (c : Char) :
    (xs ++ '[' :: (ds ++ [c])).getLast? = some c := by
  rw [List.append_cons xs '[' (ds ++ [c]), ← List.append_assoc, List.getLast?_concat]

/-- What stands between the last brackets of a segment. -/
theorem inside_brackets (xs ds : List Char) :
    ((xs ++ '[' :: (ds ++ [']'])).take ((xs ++ '[' :: (ds ++ [']'])).length - 1)).drop
      (xs.length + 1) = ds := by
  have hlen : (xs ++ '[' :: (ds ++ [']'])).length - 1 = (xs ++ '[' :: ds).length := by
    simp
  have happ : xs ++ '[' :: (ds ++ [']']) = (xs ++ '[' :: ds) ++ [']'] := by simp
  rw [hlen, happ, List.take_left]
  simp

section

variable [AlphanumericTable]

theorem is_identifier_no_brackets (hb : BracketsApart) {s : List Char}
    (h : is_identifier s = true) :
    '[' ∉ s ∧ ']' ∉ s := by
  unfold is_identifier at h
  rw [Bool.and_eq_true, List.all_eq_true] at h
  have hall : ∀ c ∈ s, is_alphanumeric c = true ∨ c = '_' ∨ c = '-' := by
    intro c hc
    obtain ⟨i, hi⟩ := List.getElem?_of_mem hc
    have hc' := h.2 (c, i) (List.mk_mem_zipIdx_iff_getElem?.mpr hi)
    simp only [Bool.or_eq_true, Bool.and_eq_true, beq_iff_eq] at hc'
    tauto
  constructor
  · intro hmem
    have hopen := hall '[' hmem
    simp [hb.open_] at hopen
  · intro hmem
    have hclose := hall ']' hmem
    simp [hb.close] at hclose

theorem identifier_shape (hb : BracketsApart) {s : List Char} (h : is_identifier s = true) :
    SegmentShape s s [] where
  eq := (List.append_nil s).symm
  no_open := (is_identifier_no_brackets hb h).1
  no_close := (is_identifier_no_brackets hb h).2
  digits := by simp

/-! ### The check of a segment -/

theorem is_segment_loop_shape (hb : BracketsApart) (fuel : Nat) (seg : List Char)
    (h : is_segment_loop fuel seg = true) : ∃ ident subs, SegmentShape seg ident subs := by
  induction fuel generalizing seg with
  | zero => exact ⟨seg, [], identifier_shape hb h⟩
  | succ fuel ih =>
    rw [is_segment_loop] at h
    split at h
    · rename_i hlast
      cases hopen : rfind '[' seg with
      | none =>
        rw [hopen] at h
        cases h
      | some i =>
        rw [hopen] at h
        obtain ⟨xs, ys, rfl, hno, rfl⟩ := rfind_eq_some hopen
        obtain ⟨ds, rfl⟩ : ∃ ds, ys = ds ++ [']'] := by
          cases ys using List.reverseRecOn with
          | nil => simp at hlast
          | append_singleton ds c =>
            rw [getLast?_after_bracket, Option.some.injEq] at hlast
            exact ⟨ds, by rw [hlast]⟩
        simp only [inside_brackets, List.take_left'] at h
        split at h
        · cases h
        · rename_i hdigits
          rw [Bool.not_eq_true, Bool.or_eq_false_iff, Bool.not_eq_false',
            List.all_eq_true] at hdigits
          obtain ⟨ident, subs, hshape⟩ := ih xs h
          refine ⟨ident, subs ++ [ds], ?_, hshape.no_open, hshape.no_close, ?_⟩
          · rw [brackets_concat, ← List.append_assoc, ← hshape.eq]
          · intro d hd
            rcases List.mem_append.mp hd with hd | hd
            · exact hshape.digits d hd
            · rw [List.mem_singleton] at hd
              subst hd
              exact ⟨by simpa using hdigits.1, hdigits.2⟩
    · exact ⟨seg, [], identifier_shape hb h⟩

end

/-! ### The numbers of the subscripts -/

/-- The number fits the machine word of an index. -/
def fits_usize : Step → Bool
  | .field _ => true
  | .index i => decide (i < 2 ^ 64)

theorem digits_value_eq {ds : List Char} (h : ∀ c ∈ ds, c.isDigit = true) :
    digits_value ds = some (digits_number ds) :=
  digits_value_eq_some.mpr ⟨h, rfl⟩

theorem parse_usize_digits {ds : List Char} (hne : ds ≠ []) (h : ∀ c ∈ ds, c.isDigit = true) :
    parse_usize ds = if digits_number ds < 2 ^ 64 then some (digits_number ds) else none := by
  have hplus : ∀ rest, ds ≠ '+' :: rest := by
    rintro rest rfl
    have hsign := h '+' List.mem_cons_self
    cases hsign
  unfold parse_usize
  dsimp only
  split
  · rename_i rest
    exact absurd rfl (hplus rest)
  · rw [if_neg hne, digits_value_eq h, Option.bind_some]

theorem split_subscripts_loop_shape {seg ident : List Char} {subs : List (List Char)}
    (h : SegmentShape seg ident subs) (fuel : Nat) (hfuel : seg.length ≤ fuel) (acc : List Nat) :
    split_subscripts_loop fuel seg acc = (ident, subs.filterMap parse_usize ++ acc) := by
  induction subs using List.reverseRecOn generalizing seg fuel acc with
  | nil =>
    have hseg : seg = ident := by
      rw [h.eq]
      simp [brackets]
    subst hseg
    cases fuel with
    | zero => rfl
    | succ fuel =>
      rw [split_subscripts_loop, if_neg]
      · rfl
      · intro hlast
        exact h.no_close (List.mem_of_getLast? hlast)
  | append_singleton subs ds ih =>
    obtain ⟨heq, hopen, hclose, hdigits⟩ := h
    rw [brackets_concat, ← List.append_assoc] at heq
    subst heq
    obtain ⟨hne, hds⟩ := hdigits ds (List.mem_append_right _ (List.mem_singleton_self ds))
    cases fuel with
    | zero => simp at hfuel
    | succ fuel =>
      have hno : '[' ∉ ds ++ [']'] := by
        intro hmem
        rcases List.mem_append.mp hmem with hmem | hmem
        · have hdigit := hds '[' hmem
          cases hdigit
        · simp at hmem
      rw [split_subscripts_loop, if_pos (getLast?_after_bracket _ _ _), rfind_append_cons _ _ hno]
      simp only [inside_brackets, List.take_left']
      rw [ih ⟨rfl, hopen, hclose, fun d hd => hdigits d (List.mem_append_left _ hd)⟩]
      · rw [List.filterMap_append, List.append_assoc]
        cases hp : parse_usize ds <;> simp [hp]
      · simp at hfuel ⊢
        omega

def segment_steps (ident : List Char) (subs : List (List Char)) : List Step :=
  .field (String.ofList ident) :: subs.map fun ds => .index (digits_number ds)

theorem foldl_get_index (v : Option Value) (ns : List Nat) :
    ns.foldl (fun acc sub => acc.bind fun w => w.get_index sub) v =
      v.bind fun w => w.follow (ns.map Step.index) := by
  induction ns generalizing v with
  | nil => cases v <;> rfl
  | cons n ns ih =>
    rw [List.foldl_cons, ih]
    cases v <;> rfl

/-- A segment of the shape is resolved step by step, without the numbers that do not fit. -/
theorem resolve_segment_shape {seg : String} {ident : List Char} {subs : List (List Char)}
    (h : SegmentShape seg.toList ident subs) (cur : Value) :
    resolve_segment cur seg = cur.follow ((segment_steps ident subs).filter fits_usize) := by
  have hsubs : (subs.filterMap parse_usize).map Step.index =
      (subs.map fun ds => Step.index (digits_number ds)).filter fits_usize := by
    have hdigits := h.digits
    clear h
    induction subs with
    | nil => rfl
    | cons ds subs ih =>
      obtain ⟨hne, hds⟩ := hdigits ds List.mem_cons_self
      have hrest := ih fun d hd => hdigits d (List.mem_cons_of_mem _ hd)
      rw [List.filterMap_cons, parse_usize_digits hne hds, List.map_cons]
      by_cases hn : digits_number ds < 2 ^ 64
      · rw [if_pos hn, List.filter_cons_of_pos (by simpa [fits_usize] using hn), List.map_cons,
          hrest]
      · rw [if_neg hn, List.filter_cons_of_neg (by simpa [fits_usize] using hn), hrest]
  unfold resolve_segment split_subscripts
  rw [split_subscripts_loop_shape h _ le_rfl, List.append_nil]
  simp only [foldl_get_index, hsubs]
  rfl

/-! ## Both readers take the same steps -/

theorem read_name (cs ident rest : List Char) (hdot : '.' ∉ ident) (hopen : '[' ∉ ident) :
    read_path (.name cs) (ident ++ rest) = read_path (.name (cs ++ ident)) rest := by
  induction ident generalizing cs with
  | nil => simp
  | cons c ident ih =>
    rw [List.mem_cons, not_or] at hdot hopen
    rw [List.cons_append, read_path, if_neg fun h => hdot.1 h.symm, if_neg fun h => hopen.1 h.symm,
      ih _ hdot.2 hopen.2, List.append_assoc, List.singleton_append]

theorem read_index (n : Nat) (ds rest : List Char) (h : ∀ c ∈ ds, c.isDigit = true) :
    read_path (.index n) (ds ++ ']' :: rest) =
      .index (ds.foldl next_digit n) :: read_path .between rest := by
  induction ds generalizing n with
  | nil => rw [List.nil_append, read_path, if_pos rfl, List.foldl_nil]
  | cons c ds ih =>
    have hc : c ≠ ']' := by
      rintro rfl
      have hdigit := h ']' List.mem_cons_self
      cases hdigit
    rw [List.cons_append, read_path, if_neg hc, ih _ fun d hd => h d (List.mem_cons_of_mem _ hd),
      List.foldl_cons]

theorem read_subscripts (subs : List (List Char)) (rest : List Char)
    (h : ∀ ds ∈ subs, ds ≠ [] ∧ ∀ c ∈ ds, c.isDigit = true) :
    read_path .between (brackets subs ++ rest) =
      (subs.map fun ds => Step.index (digits_number ds)) ++ read_path .between rest := by
  induction subs with
  | nil => rfl
  | cons ds subs ih =>
    have hcons : brackets (ds :: subs) ++ rest = '[' :: (ds ++ ']' :: (brackets subs ++ rest)) := by
      simp [brackets]
    rw [hcons, read_path, if_neg (by decide), if_pos rfl,
      read_index _ _ _ (h ds List.mem_cons_self).2, ih fun d hd => h d (List.mem_cons_of_mem _ hd)]
    rfl

/-- A segment is read up to its end, or up to the dot behind it. -/
theorem read_segment {seg ident : List Char} {subs : List (List Char)}
    (h : SegmentShape seg ident subs) (hdot : '.' ∉ ident) (rest : List Char)
    (hrest : rest = [] ∨ ∃ r, rest = '.' :: r) :
    read_path (.name []) (seg ++ rest) = segment_steps ident subs ++ read_path .between rest := by
  rw [h.eq, List.append_assoc, read_name _ _ _ hdot h.no_open, List.nil_append]
  have hdigits := h.digits
  cases subs with
  | nil =>
    rcases hrest with rfl | ⟨r, rfl⟩
    · rfl
    · have hnil : brackets [] ++ '.' :: r = '.' :: r := rfl
      rw [hnil, read_path, if_pos rfl, read_path, if_pos rfl]
      rfl
  | cons ds subs =>
    have hcons : brackets (ds :: subs) ++ rest = '[' :: (ds ++ ']' :: (brackets subs ++ rest)) := by
      simp [brackets]
    rw [hcons, read_path, if_neg (by decide), if_pos rfl,
      read_index _ _ _ (hdigits ds List.mem_cons_self).2,
      read_subscripts _ _ fun d hd => hdigits d (List.mem_cons_of_mem _ hd)]
    rfl

/-- The value at the steps of a path, when every number that does not fit is left out. -/
def follow_fitting (root : Value) (steps : List Step) : Option Value :=
  root.follow (steps.filter fits_usize)

/-- One segment of the shape has one list of steps for both readers. -/
theorem segment_agrees {seg : List Char} (hdot : '.' ∉ seg)
    (h : ∃ ident subs, SegmentShape seg ident subs) :
    ∃ steps, (∀ v, resolve_segment v (String.ofList seg) = follow_fitting v steps) ∧
      ∀ rest, (rest = [] ∨ ∃ r, rest = '.' :: r) →
        read_path (.name []) (seg ++ rest) = steps ++ read_path .between rest := by
  obtain ⟨ident, subs, hshape⟩ := h
  have hident : '.' ∉ ident := by
    intro hmem
    rw [hshape.eq] at hdot
    exact hdot (List.mem_append_left _ hmem)
  refine ⟨segment_steps ident subs, ?_, fun rest hrest => read_segment hshape hident rest hrest⟩
  intro v
  apply resolve_segment_shape
  rw [String.toList_ofList]
  exact hshape

theorem follow_fitting_append (root : Value) (p q : List Step) :
    follow_fitting root (p ++ q) = (follow_fitting root p).bind fun v => follow_fitting v q := by
  unfold follow_fitting
  rw [List.filter_append, Value.follow_append]

/-- The segments one after the other, as the resolution takes them. -/
theorem resolve_segments (seg : List Char) (segs : List (List Char))
    (h : ∀ q ∈ seg :: segs, '.' ∉ q ∧ ∃ ident subs, SegmentShape q ident subs)
    (cur : Option Value) :
    ((seg :: segs).map String.ofList).foldl
        (fun acc s => acc.bind fun cur => resolve_segment cur s) cur =
      cur.bind fun root =>
        follow_fitting root (read_path (.name []) (List.intercalate ['.'] (seg :: segs))) := by
  obtain ⟨hdot, hshape⟩ := h seg List.mem_cons_self
  obtain ⟨steps, hresolve, hread⟩ := segment_agrees hdot hshape
  rw [List.map_cons, List.foldl_cons]
  simp only [hresolve]
  induction segs generalizing seg cur steps with
  | nil =>
    have hone : List.intercalate ['.'] [seg] = seg ++ [] := by simp [List.intercalate]
    rw [hone, hread [] (.inl rfl), read_path, List.append_nil]
    rfl
  | cons next segs ih =>
    have h' : ∀ q ∈ next :: segs, '.' ∉ q ∧ ∃ ident subs, SegmentShape q ident subs :=
      fun q hq => h q (List.mem_cons_of_mem _ hq)
    obtain ⟨hdot', hshape'⟩ := h' next List.mem_cons_self
    obtain ⟨steps', hresolve', hread'⟩ := segment_agrees hdot' hshape'
    rw [List.intercalate_cons_cons, List.append_assoc, List.singleton_append,
      hread _ (.inr ⟨_, rfl⟩), read_path, if_pos rfl, List.map_cons, List.foldl_cons]
    simp only [hresolve']
    rw [ih next h' _ hdot' hshape' steps' hresolve' hread', Option.bind_assoc]
    simp only [follow_fitting_append]

section

variable [AlphanumericTable]

theorem valid_field_path_shape (hb : BracketsApart) {seg : List Char} {segs : List (List Char)}
    {field : String} (hp : pieces '.' field.toList = seg :: segs)
    (h : valid_field_path field = true) :
    ∀ q ∈ seg :: segs, ∃ ident subs, SegmentShape q ident subs := by
  unfold valid_field_path split at h
  rw [hp, List.map_cons] at h
  simp only [Bool.and_eq_true, String.toList_ofList, List.all_eq_true] at h
  intro q hq
  rcases List.mem_cons.mp hq with rfl | hq
  · exact ⟨_, _, identifier_shape hb h.1⟩
  · have hseg := h.2 (String.ofList q) (List.mem_map_of_mem hq)
    unfold is_segment at hseg
    rw [String.toList_ofList] at hseg
    exact is_segment_loop_shape hb _ _ hseg

/-- On every path of the check, the resolution follows the steps without the numbers that do
not fit. -/
theorem resolve_field_eq (hb : BracketsApart) {field : String} (h : valid_field_path field = true)
    (root : Value) : resolve_field root field = follow_fitting root (path_steps field) := by
  obtain ⟨seg, segs, hp, hfield, hno⟩ := pieces_eq '.' field.toList
  have hshape := valid_field_path_shape hb hp h
  unfold resolve_field split path_steps
  rw [hp, resolve_segments seg segs fun q hq => ⟨hno q hq, hshape q hq⟩, ← hfield]
  rfl

/-! ## The numbers that do not fit -/

omit [AlphanumericTable] in
/-- A value that has all steps but the ones that do not fit, and none of these. -/
theorem follow_holding_fitting (steps : List Step) (h : ∃ s ∈ steps, fits_usize s = false) :
    (Value.holding (steps.filter fits_usize)).follow steps = none := by
  induction steps with
  | nil => simp at h
  | cons s steps ih =>
    cases hs : fits_usize s with
    | true =>
      have hrest : ∃ t ∈ steps, fits_usize t = false := by
        obtain ⟨t, ht, hfit⟩ := h
        rcases List.mem_cons.mp ht with rfl | ht
        · rw [hs] at hfit
          cases hfit
        · exact ⟨t, ht, hfit⟩
      rw [List.filter_cons_of_pos hs, Value.follow_cons, Value.step_holding, Option.bind_some,
        ih hrest]
    | false =>
      cases s with
      | field name => cases hs
      | index n =>
        have hn : 2 ^ 64 ≤ n := by simpa [fits_usize] using hs
        rw [List.filter_cons_of_neg (by simp [hs]), Value.follow_cons, Value.step_holding_of_lt]
        · rfl
        · intro i hi
          have hfit := List.of_mem_filter hi
          simp only [fits_usize, decide_eq_true_eq] at hfit
          omega

/-- The resolution is the navigation from left to right exactly on the paths whose subscripts
fit the machine word. Any other subscript is left out. -/
theorem resolve_field_navigates_iff (hb : BracketsApart) (field : String)
    (h : valid_field_path field = true) :
    (∀ root : Value, resolve_field root field = root.follow (path_steps field)) ↔
      ∀ n, Step.index n ∈ path_steps field → n < 2 ^ 64 := by
  simp only [resolve_field_eq hb h]
  constructor
  · intro hall n hn
    by_contra hbig
    have hnone := follow_holding_fitting (path_steps field)
      ⟨.index n, hn, by simpa [fits_usize] using hbig⟩
    rw [← hall, follow_fitting, Value.follow_holding] at hnone
    cases hnone
  · intro hfit root
    have hfilter : (path_steps field).filter fits_usize = path_steps field := by
      rw [List.filter_eq_self]
      intro s hs
      cases s with
      | field name => rfl
      | index n => simpa [fits_usize] using hfit n hs
    rw [follow_fitting, hfilter]

end

/-- The subscript has 20 digits. The value under it is a text, with nothing to index. -/
def large_subscript : String := "spec.hostname[18446744073709551616]"

def one_hostname : Value := .object [("spec", .object [("hostname", .string "web-0")])]

theorem a_large_subscript_is_dropped :
    @valid_field_path ascii_alphanumeric large_subscript = true ∧
      resolve_field one_hostname large_subscript ≠
        one_hostname.follow (path_steps large_subscript) := by
  refine ⟨by decide +kernel, ?_⟩
  have hcode : (resolve_field one_hostname large_subscript).isSome = true := by decide +kernel
  have hsteps : (one_hostname.follow (path_steps large_subscript)).isSome = false := by
    decide +kernel
  intro heq
  rw [heq, hsteps] at hcode
  cases hcode

theorem a_container_name_is_navigated :
    (∀ root : Value, resolve_field root "spec.containers[0].name" =
        root.follow (path_steps "spec.containers[0].name")) ↔
      ∀ n, Step.index n ∈ path_steps "spec.containers[0].name" → n < 2 ^ 64 :=
  @resolve_field_navigates_iff ascii_alphanumeric
    (@BracketsApart.mk ascii_alphanumeric (by decide) (by decide)) "spec.containers[0].name"
    (by decide +kernel)

end kaptein_viewmodel.viewdef
