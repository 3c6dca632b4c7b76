-- The end of the fuzzy jump. The row under the cursor is looked up again in the
-- whole table, by its name alone, and the window moves to the row that is found.
import Mathlib.Data.List.Nodup
import Kaptein.JumpKeys

open runs rust_slice windows kaptein_viewmodel kaptein_viewmodel.table kaptein_viewmodel.mem_plane
  kaptein_viewmodel.fuzzy

namespace kaptein_tui

theorem clamp_viewport_selected (total selected scroll page_height : Nat) (ht : 0 < total) :
    (clamp_viewport total selected scroll page_height).1 = min selected (total - 1) := by
  unfold clamp_viewport
  rw [if_neg (by omega)]
  simp only
  split_ifs <;> rfl

/-- The object of a row. -/
def row_key (x : TableRow) : String × String := (x.namespace_, x.name)

section

variable (std : StableSort) [TimestampText] [UppercaseTable] (kinds : Kinds) (cluster : Cluster)

/-! ## The list of the jump -/

/-- The jump is open over a view that does not change. -/
structure Frozen (plane : MemPlane) (kind : Kind) (l : Loop) : Prop where
  jump : l.state.jump_query.isSome = true
  plane : l.state.plane = plane
  kind : l.state.kind = kind

/-- Every row of the list is a row of the plane. -/
def FromPlane (plane : MemPlane) (kind : Kind) (s : State) : Prop :=
  ∀ r ∈ s.jump_master, r ∈ plane.rows.map (table_row kind)

omit [UppercaseTable] in
theorem mem_table {s : State} {r : TableRow} :
    r ∈ s.table std ↔ r ∈ s.plane.rows.map (table_row s.kind) :=
  (sorted_table_perm std s.plane s.kind s.sort_key s.sort_descending).mem_iff

omit [UppercaseTable] in
theorem enter_fromPlane (s : State) : FromPlane s.plane s.kind (enter_jump std s) := by
  unfold FromPlane
  intro r hr
  change r ∈ (s.query std 0 50000).1 at hr
  rw [State.query_eq] at hr
  exact (mem_table std).mp (List.mem_of_mem_take (List.mem_of_mem_drop hr))

variable {std kinds} in
theorem FromPlane.effect {plane : MemPlane} {kind : Kind} {s t : State}
    (hs : FromPlane plane kind s) (hplane : s.plane = plane) (hkind : s.kind = kind)
    (h : Effect std kinds s t) : FromPlane plane kind t := by
  have hsame : t.jump_master = s.jump_master → FromPlane plane kind t := by
    intro hmaster
    unfold FromPlane
    rw [hmaster]
    exact hs
  cases h with
  | still h => exact hsame h.master
  | travel _ hlist => exact hsame hlist.master
  | help _ hlist => exact hsame hlist.master
  | palette _ hlist => exact hsame hlist.master
  | close _ hlist => exact hsame hlist.master
  | typed q _ _ _ hmaster => exact hsame hmaster
  | enter _ _ ht =>
    rw [ht, ← hplane, ← hkind]
    exact enter_fromPlane std s

/-! ## The row that is found -/

/-- The table again, with the cursor on one of its rows. -/
def State.moved_to (s : State) (i : Nat) : State :=
  { s with
    jump_query := none
    total := (s.table std).length
    selected := i
    scroll := (clamp_viewport (s.table std).length i 0 s.page_height).2 }

omit [UppercaseTable] in
/-- The look up comes to the first row of the name, and the window shows this row. -/
theorem accept_jump_found {s : State} {r : TableRow} {i : Nat}
    (hr : jump_selected_row s.jump_master s.jump_order s.selected = some r)
    (hlength : s.plane.rows.length ≤ 50000)
    (hi : (s.table std).findIdx? (fun x => x.name == r.name) = some i) :
    accept_jump std s = ⟨s.moved_to std i, .JumpWindow⟩ := by
  have hfull : State.query std { s with jump_query := none } 0 50000 =
      (s.table std, (s.table std).length) := by
    rw [State.query_eq]
    change (slice (s.table std) 0 50000, _) = _
    rw [slice_all]
    · rfl
    · rw [State.length_table]
      exact hlength
  unfold accept_jump
  rw [hr]
  dsimp only
  rw [hfull]
  dsimp only
  rw [hi]
  rfl

omit [UppercaseTable] in
theorem moved_to_row {s : State} {i : Nat} (hi : i < (s.table std).length)
    (hheight : 0 < s.page_height) :
    (slice (s.table std) (s.moved_to std i).scroll ((s.moved_to std i).scroll + s.page_height))[i -
      (s.moved_to std i).scroll]? = (s.table std)[i]? := by
  apply getElem?_framed
  have hpos : 0 < (s.table std).length := by omega
  have hframed := clamp_viewport_framed _ i 0 s.page_height hpos hheight
  rw [clamp_viewport_selected _ _ _ _ hpos, Nat.min_eq_left (by omega)] at hframed
  exact hframed

/-- The row under the cursor, once the jump is accepted and its window is fetched. -/
def AcceptsTo (l : Loop) (x : TableRow) : Prop :=
  ∃ t, exec (Loop.step std kinds) l [.Press cluster .Enter, .Advance cluster] = some t ∧
    selected_row t.state.rows t.state.selected t.state.scroll false = some x

variable {std kinds cluster} in
theorem AcceptsTo.unique {l : Loop} {x y : TableRow} (hx : AcceptsTo std kinds cluster l x)
    (hy : AcceptsTo std kinds cluster l y) : x = y := by
  obtain ⟨t, ht, hx⟩ := hx
  obtain ⟨u, hu, hy⟩ := hy
  rw [ht] at hu
  cases hu
  rw [hx] at hy
  exact Option.some.inj hy

variable {std kinds cluster} in
theorem accepts_another {l : Loop} {x r : TableRow} (hx : AcceptsTo std kinds cluster l x)
    (hkey : row_key x ≠ row_key r) : AcceptsTo std kinds cluster l x ∧
      ¬ ∃ y, AcceptsTo std kinds cluster l y ∧ row_key y = row_key r := by
  refine ⟨hx, ?_⟩
  rintro ⟨y, hy, hsame⟩
  rw [hy.unique hx] at hsame
  exact hkey hsame

theorem accepts_the_first {l : Loop} {r x : TableRow} (hphase : l.phase = .Poll)
    (hm : OneMode l.state) (hopen : l.state.jump_query.isSome = true)
    (hheight : 0 < l.state.page_height) (hlength : l.state.plane.rows.length ≤ 50000)
    (hr : jump_selected_row l.state.jump_master l.state.jump_order l.state.selected = some r)
    (hx : (l.state.table std).find? (fun x => x.name == r.name) = some x) :
    AcceptsTo std kinds cluster l x := by
  rw [List.find?_eq_bind_findIdx?_getElem?, Option.bind_eq_some_iff] at hx
  obtain ⟨i, hi, hx⟩ := hx
  have hpress : press std kinds cluster .Enter l.state = .ok (accept_jump std l.state) := by
    obtain ⟨hclosed, hoff⟩ := hm hopen
    simp [press, hclosed, hoff, hopen]
  have henter : Loop.step std kinds l (.Press cluster .Enter) = some (accept_jump std l.state) := by
    simp [Loop.step, hphase, hpress, Except.toOption]
  rw [accept_jump_found std hr hlength hi] at henter
  let moved : Loop := ⟨l.state.moved_to std i, .JumpWindow⟩
  refine ⟨advance std cluster moved, ?_, ?_⟩
  · rw [exec_cons, henter]
    rfl
  · have hwindow := moved_to_row std (List.getElem?_eq_some_iff.mp hx).1 hheight
    change (moved.state.query std _ _).1[i - _]? = some x
    rw [State.query_eq]
    exact hwindow.trans hx

/-- The candidate is the first row of the table that has its name. -/
def FirstOfName (s : State) (r : TableRow) : Prop :=
  (s.table std).find? (fun x => x.name == r.name) = some r

omit [UppercaseTable] in
theorem row_of_key {s : State} (hkeys : ((s.plane.rows.map (table_row s.kind)).map row_key).Nodup)
    {x y : TableRow} (hx : x ∈ s.table std) (hy : y ∈ s.table std) (h : row_key x = row_key y) :
    x = y :=
  List.inj_on_of_nodup_map hkeys ((mem_table std).mp hx) ((mem_table std).mp hy) h

theorem accepts_candidate_iff {l : Loop} {r : TableRow} (hphase : l.phase = .Poll)
    (hm : OneMode l.state) (hopen : l.state.jump_query.isSome = true)
    (hheight : 0 < l.state.page_height) (hlength : l.state.plane.rows.length ≤ 50000)
    (hkeys : ((l.state.plane.rows.map (table_row l.state.kind)).map row_key).Nodup)
    (hr : jump_selected_row l.state.jump_master l.state.jump_order l.state.selected = some r)
    (hmem : r ∈ l.state.table std) :
    (∃ x, AcceptsTo std kinds cluster l x ∧ row_key x = row_key r) ↔ FirstOfName std l.state r := by
  have hfound : ((l.state.table std).find? fun x => x.name == r.name).isSome = true := by
    rw [List.find?_isSome]
    exact ⟨r, hmem, by simp⟩
  obtain ⟨y, hy⟩ := Option.isSome_iff_exists.mp hfound
  have haccepts : AcceptsTo std kinds cluster l y :=
    accepts_the_first std kinds cluster hphase hm hopen hheight hlength hr hy
  unfold FirstOfName
  rw [hy, Option.some.injEq]
  constructor
  · rintro ⟨x, hx, hkey⟩
    have hxy : x = y := hx.unique haccepts
    subst hxy
    exact row_of_key std hkeys (List.mem_of_find?_eq_some hy) hmem hkey
  · rintro rfl
    exact ⟨y, haccepts, rfl⟩

/-! ## A whole jump -/

variable {std kinds} in
theorem Effect.height {s t : State} (h : Effect std kinds s t) (hpos : 0 < s.page_height) :
    0 < t.page_height := by
  cases h with
  | still h => exact h.height hpos
  | travel _ hlist => exact hlist.height hpos
  | help _ hlist => exact hlist.height hpos
  | palette _ hlist => exact hlist.height hpos
  | close _ hlist => exact hlist.height hpos
  | typed q _ _ _ _ _ hheight =>
    rw [hheight]
    exact hpos
  | enter _ _ ht =>
    rw [ht]
    exact hpos

theorem reachable_height {l₀ l : Loop} {events : List Event} (hl : start kinds cluster = .ok l₀)
    (hrun : exec (Loop.step std kinds) l₀ events = some l) : 0 < l.state.page_height := by
  have hinv : Always (Loop.step std kinds) (fun l => 0 < l.state.page_height) l₀ events := by
    apply Always.of_step
    · intro l e t hpos ht
      exact (step_effect std kinds ht).height hpos
    · exact (still_rebuilt cluster hl).height (show 0 < 10 by decide)
  exact hinv.last hrun

variable {std kinds} in
theorem Effect.opens {s t : State} (h : Effect std kinds s t) (hclosed : s.jump_query = none)
    (hopen : t.jump_query.isSome = true) : t = enter_jump std s := by
  have hnot : t.jump_query ≠ s.jump_query := by
    intro heq
    rw [heq, hclosed] at hopen
    cases hopen
  cases h with
  | still h => exact absurd h.jump hnot
  | travel _ _ hjump => exact absurd hjump hnot
  | help _ _ hjump => exact absurd hjump hnot
  | palette _ _ hjump => exact absurd hjump hnot
  | close _ _ hjump => exact absurd (hjump.trans hclosed.symm) hnot
  | typed q _ hwas =>
    rw [hclosed] at hwas
    cases hwas
  | enter _ _ ht => exact ht

/-- `/` opens the jump over the plane, also when it was open before. -/
theorem slash_fromPlane {s : State} {l : Loop} (hm : OneMode s)
    (h : press std kinds cluster (.Char '/' false) s = .ok l)
    (hopen : l.state.jump_query.isSome = true) : FromPlane s.plane s.kind l.state := by
  have henter : l.state = enter_jump std s := by
    cases hj : s.jump_query with
    | none => exact (press_effect std kinds cluster h).opens hj hopen
    | some q =>
      rw [press_in_jump std kinds cluster '/' hm (by rw [hj]; rfl)] at h
      cases h
      rfl
  rw [henter]
  exact enter_fromPlane std s

/-- Enter goes to the candidate exactly where no row of its name comes before it. -/
theorem jump_selects_candidate_iff {cluster₀ cluster₁ : Cluster} {l₀ l₁ l₂ l : Loop}
    {before during : List Event} {r : TableRow} (hl : start kinds cluster₀ = .ok l₀)
    (hbefore : exec (Loop.step std kinds) l₀ before = some l₁)
    (hslash : Loop.step std kinds l₁ (.Press cluster₁ (.Char '/' false)) = some l₂)
    (hfrozen : Always (Loop.step std kinds) (Frozen l₁.state.plane l₁.state.kind) l₂ during)
    (hduring : exec (Loop.step std kinds) l₂ during = some l) (hphase : l.phase = .Poll)
    (hlength : l.state.plane.rows.length ≤ 50000)
    (hkeys : ((l.state.plane.rows.map (table_row l.state.kind)).map row_key).Nodup)
    (hr : jump_selected_row l.state.jump_master l.state.jump_order l.state.selected = some r) :
    (∃ x, AcceptsTo std kinds cluster l x ∧ row_key x = row_key r) ↔
      FirstOfName std l.state r := by
  have hlast : Frozen l₁.state.plane l₁.state.kind l := hfrozen.last hduring
  have hrun : exec (Loop.step std kinds) l₀
      (before ++ .Press cluster₁ (.Char '/' false) :: during) = some l := by
    rw [exec_append, hbefore, Option.bind_some, exec_cons, hslash]
    exact hduring
  have hm : OneMode l.state := reachable_oneMode std kinds cluster₀ hl hrun
  have hheight : 0 < l.state.page_height := reachable_height std kinds cluster₀ hl hrun
  have hfirst : FromPlane l₁.state.plane l₁.state.kind l₂.state := by
    have hm₁ : OneMode l₁.state := reachable_oneMode std kinds cluster₀ hl hbefore
    exact slash_fromPlane std kinds cluster₁ hm₁ (step_press std kinds cluster₁ hslash)
      hfrozen.head.jump
  have hlist : FromPlane l₁.state.plane l₁.state.kind l.state := by
    have hinv : Always (Loop.step std kinds)
        (fun l => FromPlane l₁.state.plane l₁.state.kind l.state) l₂ during := by
      apply Always.of_always _ hfrozen hfirst
      intro t e u ht hfrom hu
      exact FromPlane.effect hfrom ht.plane ht.kind (step_effect std kinds hu)
    exact hinv.last hduring
  have hmem : r ∈ l.state.table std := by
    rw [mem_table, hlast.plane, hlast.kind]
    apply hlist
    obtain ⟨i, -, hi⟩ := Option.bind_eq_some_iff.mp hr
    exact List.mem_of_getElem? hi
  exact accepts_candidate_iff std kinds cluster hphase hm hlast.jump hheight hlength hkeys hr hmem

end

/-! ## Two pods of one name -/

def web (namespace_ : String) : Row where
  id := namespace_ ++ "/web"
  cells := [.Text "web", .Text namespace_, .Status .Ok "Running", .Timestamp 0]

def webs_cluster : Cluster := { empty_cluster with list := fun _ _ => .ok [web "a", web "b"] }

def pods : Kind := .builtin "Pods" "" "v1" "Pod" false

def webs_plane : MemPlane := (new_plane pods).run [.upsert (web "a"), .upsert (web "b")]

/-- The first frame of the table. -/
def first_frame : List Event :=
  [.Advance webs_cluster, .Advance webs_cluster, .Advance webs_cluster, .Draw 20]

def next_frame : List Event := [.Advance webs_cluster, .Draw 20]

theorem webs_table : @sorted_table mergeSort plain_timestamps webs_plane pods 0 false =
    [@table_row plain_timestamps pods (web "a"), @table_row plain_timestamps pods (web "b")] := by
  have hcmp : comparator webs_plane.column_ids (some (sort_spec webs_plane 0 false)) =
      some (cmp_rows 0 false) := rfl
  exact @mergeSort_table plain_timestamps _ _ _ _ hcmp (by decide) pods

theorem webs_list : @query_plane mergeSort plain_timestamps webs_plane pods 0 false 0 50000 =
    ([@table_row plain_timestamps pods (web "a"), @table_row plain_timestamps pods (web "b")],
      2) := by
  rw [@query_plane_eq, webs_table]
  rfl

/-- The list of the jump before anything is typed. -/
theorem webs_candidate (i : Nat) :
    let list := (@query_plane mergeSort plain_timestamps webs_plane pods 0 false 0 50000).1
    jump_selected_row list (List.range list.length) i =
      (List.range 2)[i]?.bind fun i =>
        [@table_row plain_timestamps pods (web "a"),
          @table_row plain_timestamps pods (web "b")][i]? := by
  rw [webs_list]
  rfl

theorem the_first_web_is_selected :
    ∃ l₀ l₁ l₂ l r, start (all_kinds []) webs_cluster = .ok l₀ ∧
      exec (@Loop.step mergeSort plain_timestamps ascii_uppercase (all_kinds [])) l₀ first_frame =
        some l₁ ∧
      @Loop.step mergeSort plain_timestamps ascii_uppercase (all_kinds []) l₁
        (.Press webs_cluster (.Char '/' false)) = some l₂ ∧
      exec (@Loop.step mergeSort plain_timestamps ascii_uppercase (all_kinds [])) l₂ next_frame =
        some l ∧
      jump_selected_row l.state.jump_master l.state.jump_order l.state.selected = some r ∧
      row_key r = ("a", "web") ∧
      ∃ x, @AcceptsTo mergeSort plain_timestamps ascii_uppercase (all_kinds []) webs_cluster l x ∧
        row_key x = row_key r := by
  refine ⟨_, _, _, _, @table_row plain_timestamps pods (web "a"), rfl, rfl, rfl, rfl,
    webs_candidate 0, rfl, ?_⟩
  apply (@jump_selects_candidate_iff mergeSort plain_timestamps ascii_uppercase (all_kinds [])
    webs_cluster webs_cluster webs_cluster _ _ _ _ first_frame next_frame _ rfl rfl rfl ?_ rfl
    rfl ?_ ?_ (webs_candidate 0)).mpr
  · change List.find? _ (@sorted_table mergeSort plain_timestamps webs_plane pods 0 false) = _
    rw [webs_table]
    rfl
  · iterate 2
      refine ⟨⟨rfl, rfl, rfl⟩, ?_⟩
      intro t ht
      cases ht
    exact ⟨rfl, rfl, rfl⟩
  · change 2 ≤ 50000
    decide
  · change ((webs_plane.rows.map (@table_row plain_timestamps pods)).map row_key).Nodup
    decide

/-- `j` highlights the pod of the second namespace, and Enter selects the one of the first. -/
theorem the_second_web_is_not_selected :
    ∃ l₀ l₁ l₂ l r x, start (all_kinds []) webs_cluster = .ok l₀ ∧
      exec (@Loop.step mergeSort plain_timestamps ascii_uppercase (all_kinds [])) l₀ first_frame =
        some l₁ ∧
      @Loop.step mergeSort plain_timestamps ascii_uppercase (all_kinds []) l₁
        (.Press webs_cluster (.Char '/' false)) = some l₂ ∧
      @Always _ _ (@Loop.step mergeSort plain_timestamps ascii_uppercase (all_kinds []))
        (Frozen webs_plane pods) l₂
        (next_frame ++ .Press webs_cluster (.Char 'j' false) :: next_frame) ∧
      exec (@Loop.step mergeSort plain_timestamps ascii_uppercase (all_kinds [])) l₂
        (next_frame ++ .Press webs_cluster (.Char 'j' false) :: next_frame) = some l ∧
      ((webs_plane.rows.map (@table_row plain_timestamps pods)).map row_key).Nodup ∧
      jump_selected_row l.state.jump_master l.state.jump_order l.state.selected = some r ∧
      row_key r = ("b", "web") ∧ row_key x = ("a", "web") ∧
      @AcceptsTo mergeSort plain_timestamps ascii_uppercase (all_kinds []) webs_cluster l x ∧
      ¬ ∃ y, @AcceptsTo mergeSort plain_timestamps ascii_uppercase (all_kinds []) webs_cluster l y ∧
        row_key y = row_key r := by
  have hcandidate : jump_selected_row
      (@query_plane mergeSort plain_timestamps webs_plane pods 0 false 0 50000).1
      (List.range
        (@query_plane mergeSort plain_timestamps webs_plane pods 0 false 0 50000).1.length)
      (min 1 ((List.range
        (@query_plane mergeSort plain_timestamps webs_plane pods 0 false 0 50000).1.length).length
          - 1))
      = some (@table_row plain_timestamps pods (web "b")) := by
    rw [webs_list]
    rfl
  refine ⟨_, _, _, _, @table_row plain_timestamps pods (web "b"),
    @table_row plain_timestamps pods (web "a"), rfl, rfl, rfl, ?_, rfl, by decide, hcandidate, rfl,
    rfl, ?_⟩
  · iterate 5
      refine ⟨⟨rfl, rfl, rfl⟩, ?_⟩
      intro t ht
      cases ht
    exact ⟨rfl, rfl, rfl⟩
  · apply @accepts_another mergeSort plain_timestamps ascii_uppercase
    · apply @accepts_the_first mergeSort plain_timestamps ascii_uppercase
      · rfl
      · exact fun _ => ⟨rfl, rfl⟩
      · rfl
      · change 0 < 17
        decide
      · change 2 ≤ 50000
        decide
      · exact hcandidate
      · change List.find? _ (@sorted_table mergeSort plain_timestamps webs_plane pods 0 false) = _
        rw [webs_table]
        rfl
    · decide

end kaptein_tui
