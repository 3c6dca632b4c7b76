-- The refresh of the table. The loop keeps the revision that it has seen, and
-- queries the plane again when the plane has moved on. The order in which it
-- queries and reads the revision decides whether a patch in between is seen.
import Kaptein.KeyEffects
import Kaptein.Viewport

open runs rust_slice windows kaptein_viewmodel kaptein_viewmodel.mem_plane kaptein_viewmodel.fuzzy

namespace kaptein_tui

/-! ## One patch -/

/-- A write that makes no patch leaves the rows alone. -/
theorem write_revision (p : MemPlane) (w : Write) :
    (p.write w).column_ids = p.column_ids ∧
      ((p.write w).revision = p.revision + 1 ∨
        (p.write w).revision = p.revision ∧ (p.write w).rows = p.rows) := by
  cases w with
  | upsert row => exact ⟨rfl, .inl rfl⟩
  | remove id =>
    simp only [MemPlane.write, MemPlane.remove, MemPlane.remove_state]
    cases p.state.remove id with
    | none => exact ⟨rfl, .inr ⟨rfl, rfl⟩⟩
    | some state => exact ⟨rfl, .inl rfl⟩

section

variable (std : StableSort) [TimestampText]

/-! ## What is on display -/

/-- The rows and the total are what the query that gave the rows gives now. -/
def Shown (s : State) : Prop :=
  (s.rows, s.total) = query_plane std s.plane s.asked.kind s.asked.sort_key
    s.asked.sort_descending s.asked.start s.asked.end_

/-- The plane has moved on since the revision that the loop has seen, or the
display is up to date. -/
structure Settled (s : State) : Prop where
  seen : s.last_revision ≤ s.plane.revision
  shown : s.last_revision = s.plane.revision → Shown std s

/-- No stale display: where the loop waits at the table and has seen the revision
of the plane, it shows what the plane gives. -/
def NoMissedRefresh (l : Loop) : Prop :=
  l.phase = .Poll → l.state.jump_query = none → l.state.palette_query = none →
    l.state.last_revision = l.state.plane.revision → Shown std l.state

theorem shown_total {s : State} (h : Shown std s) : s.total = s.plane.rows.length := by
  unfold Shown at h
  rw [query_plane_eq, length_sorted_table] at h
  exact congrArg Prod.snd h

/-- The total counts the rows of the plane, so the rows decide. -/
theorem shown_of_rows {s : State} (ht : s.total = s.plane.rows.length)
    (hr : s.rows = (query_plane std s.plane s.asked.kind s.asked.sort_key
      s.asked.sort_descending s.asked.start s.asked.end_).1) : Shown std s := by
  unfold Shown
  rw [hr, ht, query_plane_eq, length_sorted_table]

/-- A plane with the same rows gives the same answers. -/
theorem query_plane_congr {p q : MemPlane} (hrows : p.rows = q.rows)
    (hids : p.column_ids = q.column_ids) (kind : Kind) (sort_key : Nat) (descending : Bool)
    (start end_ : Nat) :
    query_plane std p kind sort_key descending start end_ =
      query_plane std q kind sort_key descending start end_ := by
  rw [query_plane_eq, query_plane_eq]
  unfold sorted_table sort_spec
  rw [hrows, hids]

theorem requery_shown (s : State) : Shown std (s.requery_and_assign std) := by
  unfold Shown State.requery_and_assign requery_window
  rfl

theorem palette_rows_shown {s : State} (h : s.total = s.plane.rows.length) :
    Shown std (s.palette_rows std) :=
  shown_of_rows std h rfl

/-! ## Steps that keep the display settled -/

theorem Settled.of_shown {s t : State} (hs : Settled std s) (hp : t.plane = s.plane)
    (hl : t.last_revision = s.last_revision) (ht : Shown std t) : Settled std t := by
  refine ⟨?_, fun _ => ht⟩
  rw [hp, hl]
  exact hs.seen

/-- The second state has the same plane and the same display. -/
structure SameDisplay (s t : State) : Prop where
  plane : t.plane = s.plane
  last_revision : t.last_revision = s.last_revision
  rows : t.rows = s.rows
  total : t.total = s.total
  asked : t.asked = s.asked
  palette : t.palette_query = s.palette_query

/-- What a key changes besides the display does not matter here. -/
theorem Settled.frame {s t : State} (hs : Settled std s) (h : SameDisplay s t) :
    Settled std t := by
  refine ⟨?_, ?_⟩
  · rw [h.plane, h.last_revision]
    exact hs.seen
  · intro hrev
    unfold Shown
    rw [h.plane, h.rows, h.total, h.asked]
    exact hs.shown (by rw [← h.last_revision, ← h.plane, hrev])

theorem Settled.requery_unless_jump {s : State} (hs : Settled std s) :
    Settled std (s.requery_unless_jump std) := by
  unfold State.requery_unless_jump
  split
  · exact hs.of_shown std rfl rfl (requery_shown std s)
  · exact hs

theorem Settled.palette_rows {s : State} (hs : Settled std s) :
    Settled std (s.palette_rows std) := by
  refine ⟨hs.seen, ?_⟩
  intro h
  exact palette_rows_shown std (shown_total std (hs.shown h))

/-- A patch moves the plane on, or it changes nothing. -/
theorem Settled.patch {s : State} (hs : Settled std s) (w : Write) :
    Settled std { s with plane := s.plane.write w } := by
  obtain ⟨hids, hnew | ⟨hrev, hrows⟩⟩ := write_revision s.plane w
  · have hlt : s.last_revision < (s.plane.write w).revision := by
      rw [hnew]
      exact Nat.lt_succ_of_le hs.seen
    exact ⟨Nat.le_of_lt hlt, fun h => absurd h (Nat.ne_of_lt hlt)⟩
  · refine ⟨?_, ?_⟩
    · rw [hrev]
      exact hs.seen
    · intro h
      have hshown := hs.shown (h.trans hrev)
      unfold Shown at hshown ⊢
      rw [query_plane_congr std hrows hids]
      exact hshown

/-! ## The invariant of the loop -/

/-- The palette is never open over a jump. -/
def Modes (s : State) : Prop := s.palette_query.isSome = true → s.jump_query = none

/-- A plane that a command of the palette has built is still behind the revision
of the plane before it. -/
structure Behind (s : State) : Prop where
  behind : s.plane.revision < s.last_revision
  jump : s.jump_query = none
  palette : s.palette_query = none

def PhaseOk (l : Loop) : Prop :=
  match l.phase with
  | .Top => Settled std l.state ∨ Behind l.state
  | .Refresh rev => rev ≤ l.state.plane.revision
  | .Draw | .Poll => Settled std l.state
  | .JumpWindow => l.state.last_revision ≤ l.state.plane.revision
  | .InitialQuery | .InitialRevision | .TopQuery | .ReadRevision | .Quit => True
  | .PaletteQuery => l.state.jump_query = none ∧ l.state.palette_query = none

structure Watched (l : Loop) : Prop where
  modes : Modes l.state
  phase : PhaseOk std l

theorem watched_top {s : State} (hm : Modes s) (hs : Settled std s) : Watched std ⟨s, .Top⟩ :=
  ⟨hm, .inl hs⟩

omit [TimestampText] in
theorem modes_of_closed {s : State} (h : s.palette_query = none) : Modes s := by
  intro hsome
  rw [h] at hsome
  cases hsome

/-! ## A key keeps it -/

variable [UppercaseTable] (kinds : Kinds) (cluster : Cluster)

omit [TimestampText] [UppercaseTable] in
/-- A move of the cursor, or another order of the rows, before anything is fetched. -/
theorem cursor_display (s : State) (sort_key : Nat) (sort_descending : Bool)
    (selected scroll : Nat) :
    SameDisplay s { s with sort_key, sort_descending, selected, scroll } :=
  ⟨rfl, rfl, rfl, rfl, rfl, rfl⟩

omit [UppercaseTable] in
theorem watched_moved {s t : State} (hs : Settled std s) (hp : s.palette_query = none)
    (h : SameDisplay s t) : Watched std ⟨t.requery_unless_jump std, .Top⟩ := by
  apply watched_top
  · apply modes_of_closed
    have hpalette : (t.requery_unless_jump std).palette_query = t.palette_query := by
      unfold State.requery_unless_jump
      split <;> rfl
    rw [hpalette, h.palette, hp]
  · exact (hs.frame std h).requery_unless_jump std

omit [UppercaseTable] in
theorem Settled.enter_jump {s : State} (hs : Settled std s) : Settled std (enter_jump std s) := by
  refine ⟨hs.seen, ?_⟩
  intro h
  apply shown_of_rows
  · change (s.query std 0 50000).2 = s.plane.rows.length
    rw [State.query_eq, State.length_table]
  · exact congrArg Prod.fst (hs.shown h)

omit [UppercaseTable] in
theorem watched_go_to {s : State} {l : Loop} (h : go_to cluster s = .ok l)
    (hp : s.palette_query = none) : Watched std l := by
  obtain ⟨plane, rfl⟩ := rebuilt_cases cluster h
  exact ⟨modes_of_closed hp, trivial⟩

omit [UppercaseTable] in
theorem palette_rows_watched {s : State} (hs : Settled std s) (hp : s.palette_query = none) :
    Watched std ⟨s.palette_rows std, .Top⟩ := by
  have hclosed : (s.palette_rows std).palette_query = none := hp
  exact watched_top std (modes_of_closed hclosed) (hs.palette_rows std)

omit [UppercaseTable] in
theorem Ran.watched {s : State} {l : Loop} (h : Ran std kinds cluster s l) (hs : Settled std s)
    (hp : s.palette_query = none) (hj : s.jump_query = none) : Watched std l := by
  cases h with
  | rebuilt h _ _ _ hmodes =>
    have hpalette := hmodes.palette.trans hp
    have hjump := hmodes.jump.trans hj
    obtain ⟨plane, rfl⟩ := rebuilt_cases cluster h
    exact ⟨modes_of_closed hpalette, hjump, hpalette⟩
  | sorted =>
    refine palette_rows_watched std ?_ hp
    exact ⟨hs.seen, hs.shown⟩
  | detail h =>
    obtain ⟨detail, rfl⟩ := h
    exact watched_top std (modes_of_closed hp) ⟨hs.seen, hs.shown⟩
  | quit => exact ⟨modes_of_closed hp, trivial⟩

omit [UppercaseTable] in
theorem accept_jump_watched {s : State} (hs : Settled std s) (hp : s.palette_query = none) :
    Watched std (accept_jump std s) := by
  unfold accept_jump
  split
  · exact ⟨modes_of_closed hp, hs.seen⟩
  · exact watched_top std (modes_of_closed hp) ⟨hs.seen, hs.shown⟩

variable {std kinds cluster} in
theorem Outcome.watched {s : State} {l : Loop} (h : Outcome std kinds cluster s l)
    (hs : Settled std s) (hm : Modes s) : Watched std l := by
  cases h with
  | detail h =>
    obtain ⟨detail, rfl⟩ := h
    exact watched_top std hm ⟨hs.seen, hs.shown⟩
  | moved _ _ _ _ hp => exact watched_moved std hs hp (cursor_display s _ _ _ _)
  | help => exact watched_top std hm ⟨hs.seen, hs.shown⟩
  | breadcrumbs => exact watched_top std hm ⟨hs.seen, hs.shown⟩
  | palette q h =>
    refine watched_top std ?_ ⟨hs.seen, hs.shown⟩
    intro hsome
    rcases h with hclosed | hopen | hfree
    · rw [hclosed] at hsome
      cases hsome
    · exact hm hopen
    · exact hfree
  | command cmd hopen h =>
    have hran := execute_command_ran std kinds cluster h
    exact hran.watched std kinds cluster ⟨hs.seen, hs.shown⟩ rfl (hm hopen)
  | enter _ hp => exact watched_top std (modes_of_closed hp) (hs.enter_jump std)
  | rerank q hopen =>
    refine watched_top std ?_ ⟨hs.seen, hs.shown⟩
    intro hsome
    rw [hm hsome] at hopen
    cases hopen
  | cancel hp => exact watched_top std (modes_of_closed hp) (hs.of_shown std rfl rfl rfl)
  | accept hp => exact accept_jump_watched std hs hp
  | refresh h hp => exact watched_go_to std cluster h hp
  | travel h hp _ hmodes => exact watched_go_to std cluster h (hmodes.palette.trans hp)
  | quit => exact ⟨hm, trivial⟩

/-- A key at the waiting loop keeps the invariant. -/
theorem press_watched {key : Key} {s : State} {l : Loop}
    (h : press std kinds cluster key s = .ok l) (hs : Settled std s) (hm : Modes s) :
    Watched std l :=
  (press_outcome std kinds cluster h).watched hs hm

/-! ## Every step keeps it -/

/-- The steps that let no patch go unseen. The revision is read while the display
still is what the plane gives. The plane that a command of the palette has built
does not stand at the revision of the old one, and is not patched up to it before
the loop looks at it. -/
def Undisturbed (l : Loop) : Event → Prop
  | .Advance _ =>
    match l.phase with
    | .InitialRevision | .ReadRevision => Shown std l.state
    | .PaletteQuery =>
      l.state.plane.revision ≠ l.state.last_revision ∨
        l.state.total = l.state.plane.rows.length
    | _ => True
  | .Patch w =>
    l.phase = .Top → l.state.plane.revision < l.state.last_revision →
      (l.state.plane.write w).revision ≠ l.state.last_revision ∨
        Shown std { l.state with plane := l.state.plane.write w }
  | .Draw _ | .Press _ _ | .Timeout => True

omit [UppercaseTable] in
/-- The rows of a new plane are fetched, and its revision is compared with the old one. -/
theorem watched_palette_query {s : State} (hj : s.jump_query = none)
    (hp : s.palette_query = none)
    (h : s.plane.revision ≠ s.last_revision ∨ s.total = s.plane.rows.length) :
    Watched std ⟨s.palette_rows std, .Top⟩ := by
  have hm : Modes (s.palette_rows std) := fun _ => hj
  rcases Nat.lt_trichotomy s.plane.revision s.last_revision with hlt | heq | hgt
  · exact ⟨hm, .inr ⟨hlt, hj, hp⟩⟩
  · refine watched_top std hm ⟨Nat.le_of_eq heq.symm, fun _ => ?_⟩
    rcases h with hne | ht
    · exact absurd heq hne
    · exact palette_rows_shown std ht
  · refine watched_top std hm ⟨Nat.le_of_lt hgt, fun hrev => ?_⟩
    exact absurd hrev (Nat.ne_of_lt hgt)

omit [UppercaseTable] in
/-- The look of the loop at the revision finds every plane that is behind. -/
theorem watched_check {s : State} (hm : Modes s) (h : Settled std s ∨ Behind s) :
    Watched std (advance std cluster ⟨s, .Top⟩) := by
  simp only [advance]
  split_ifs with hnormal hrev
  · exact ⟨hm, Nat.le_refl _⟩
  · refine ⟨hm, ?_⟩
    rcases h with hs | hb
    · exact hs
    · exact absurd (Nat.ne_of_lt hb.behind) hrev
  · refine ⟨hm, ?_⟩
    rcases h with hs | hb
    · exact hs
    · simp [hb.jump, hb.palette] at hnormal

omit [UppercaseTable] in
theorem advance_watched {l : Loop} (h : Watched std l)
    (hg : Undisturbed std l (.Advance cluster)) : Watched std (advance std cluster l) := by
  obtain ⟨s, phase⟩ := l
  obtain ⟨hm, hphase⟩ := h
  cases phase with
  | InitialQuery => exact ⟨hm, trivial⟩
  | InitialRevision => exact watched_top std hm ⟨Nat.le_refl _, fun _ => hg⟩
  | Top => exact watched_check std cluster hm hphase
  | Refresh rev => exact ⟨hm, hphase, fun _ => requery_shown std s⟩
  | Draw => exact ⟨hm, hphase⟩
  | Poll => exact ⟨hm, hphase⟩
  | TopQuery => exact ⟨hm, trivial⟩
  | ReadRevision => exact watched_top std hm ⟨Nat.le_refl _, fun _ => hg⟩
  | PaletteQuery => exact watched_palette_query std hphase.1 hphase.2 hg
  | JumpWindow => exact watched_top std hm ⟨hphase, fun _ => rfl⟩
  | Quit => exact ⟨hm, trivial⟩

omit [UppercaseTable] in
theorem patch_watched {l : Loop} (h : Watched std l) (w : Write)
    (hg : Undisturbed std l (.Patch w)) :
    Watched std { l with state := { l.state with plane := l.state.plane.write w } } := by
  obtain ⟨s, phase⟩ := l
  obtain ⟨hm, hphase⟩ := h
  have hle : s.plane.revision ≤ (s.plane.write w).revision := by
    rcases (write_revision s.plane w).2 with hrev | ⟨hrev, _⟩
    · rw [hrev]
      exact Nat.le_succ _
    · exact Nat.le_of_eq hrev.symm
  cases phase with
  | Top =>
    rcases hphase with hs | hb
    · exact watched_top std hm (hs.patch std w)
    · rcases Nat.lt_trichotomy (s.plane.write w).revision s.last_revision with hlt | heq | hgt
      · exact ⟨hm, .inr ⟨hlt, hb.jump, hb.palette⟩⟩
      · refine watched_top std hm ⟨Nat.le_of_eq heq.symm, fun _ => ?_⟩
        rcases hg rfl hb.behind with hne | hshown
        · exact absurd heq hne
        · exact hshown
      · -- one patch moves the revision by one at most
        have hlt := hb.behind
        rcases (write_revision s.plane w).2 with hrev | ⟨hrev, _⟩
        · rw [hrev] at hgt
          exact absurd (Nat.lt_of_succ_le hlt) (Nat.not_lt_of_le (Nat.le_of_lt_succ hgt))
        · rw [hrev] at hgt
          exact absurd hgt (Nat.lt_asymm hlt)
  | Refresh rev => exact ⟨hm, Nat.le_trans hphase hle⟩
  | Draw => exact ⟨hm, Settled.patch std hphase w⟩
  | Poll => exact ⟨hm, Settled.patch std hphase w⟩
  | JumpWindow => exact ⟨hm, Nat.le_trans hphase hle⟩
  | PaletteQuery => exact ⟨hm, hphase⟩
  | InitialQuery => exact ⟨hm, trivial⟩
  | InitialRevision => exact ⟨hm, trivial⟩
  | TopQuery => exact ⟨hm, trivial⟩
  | ReadRevision => exact ⟨hm, trivial⟩
  | Quit => exact ⟨hm, trivial⟩

/-- An undisturbed step keeps the invariant. -/
theorem step_watched {l t : Loop} {e : Event} (h : Watched std l) (hg : Undisturbed std l e)
    (ht : Loop.step std kinds l e = some t) : Watched std t := by
  obtain ⟨s, phase⟩ := l
  cases e with
  | Patch w =>
    cases ht
    exact patch_watched std h w hg
  | Advance cluster =>
    have hadvance : t = advance std cluster ⟨s, phase⟩ := by
      unfold Loop.step at ht
      cases phase <;> cases ht <;> rfl
    rw [hadvance]
    exact advance_watched std cluster h hg
  | Draw height =>
    unfold Loop.step at ht
    simp only at ht
    split_ifs at ht with hphase
    subst hphase
    cases ht
    have hs : Settled std s := h.phase
    exact ⟨h.modes, hs.seen, hs.shown⟩
  | Press cluster key =>
    unfold Loop.step at ht
    simp only at ht
    split_ifs at ht with hphase
    subst hphase
    cases hk : press std kinds cluster key s with
    | error e =>
      rw [hk] at ht
      cases ht
    | ok l =>
      rw [hk] at ht
      cases ht
      exact press_watched std kinds cluster hk h.phase h.modes
  | Timeout =>
    unfold Loop.step at ht
    simp only at ht
    split_ifs at ht with hphase
    subst hphase
    cases ht
    exact watched_top std h.modes h.phase

omit [UppercaseTable] in
theorem start_watched {l : Loop} (h : start kinds cluster = .ok l) : Watched std l := by
  unfold start at h
  rw [rebuild_plane_eq] at h
  cases hl : cluster.list kinds.first none with
  | error e =>
    rw [hl] at h
    cases h
  | ok rows =>
    rw [hl] at h
    cases h
    exact ⟨modes_of_closed rfl, trivial⟩

omit [UppercaseTable] in
theorem Watched.no_missed_refresh {l : Loop} (h : Watched std l) : NoMissedRefresh std l := by
  intro hphase _ _ hrev
  have hs : Settled std l.state := by
    have hok := h.phase
    unfold PhaseOk at hok
    rw [hphase] at hok
    exact hok
  exact hs.shown hrev

/-! ## A disturbed step -/

/-- A stale display that the look at the revision does not find stays at the next wait. -/
theorem stale_at_the_wait {s : State} (hj : s.jump_query = none) (hp : s.palette_query = none)
    (hrev : s.plane.revision = s.last_revision) (hstale : ¬ Shown std s) :
    ∃ rest u, exec (Loop.step std kinds) ⟨s, .Top⟩ rest = some u ∧ ¬ NoMissedRefresh std u := by
  have hcheck : advance std empty_cluster ⟨s, .Top⟩ = ⟨s, .Draw⟩ := by
    simp [advance, hj, hp, hrev]
  refine ⟨[.Advance empty_cluster, .Draw 0], ⟨s.draw 0, .Poll⟩, ?_, ?_⟩
  · rw [exec_cons]
    simp only [Loop.step, hcheck, Option.bind_some]
    rfl
  · intro h
    exact hstale (h rfl hj hp hrev.symm)

/-- After a disturbed step the loop can come to a wait with a stale display. -/
theorem disturbed_step_is_missed {l t : Loop} {e : Event} (hj : l.state.jump_query = none)
    (hp : l.state.palette_query = none) (ht : Loop.step std kinds l e = some t)
    (hg : ¬ Undisturbed std l e) :
    ∃ rest u, exec (Loop.step std kinds) t rest = some u ∧ ¬ NoMissedRefresh std u := by
  obtain ⟨s, phase⟩ := l
  cases e with
  | Advance cluster =>
    cases phase with
    | InitialRevision =>
      cases ht
      exact stale_at_the_wait std kinds hj hp rfl hg
    | ReadRevision =>
      cases ht
      exact stale_at_the_wait std kinds hj hp rfl hg
    | PaletteQuery =>
      cases ht
      simp only [Undisturbed, not_or, not_not] at hg
      refine stale_at_the_wait std kinds hj hp hg.1 ?_
      intro hshown
      have htotal := shown_total std hshown
      exact hg.2 htotal
    | _ => exact absurd trivial hg
  | Patch w =>
    cases ht
    simp only [Undisturbed, not_forall, not_or, not_not] at hg
    obtain ⟨htop, _, hrev, hstale⟩ := hg
    subst htop
    exact stale_at_the_wait std kinds hj hp hrev hstale
  | Draw height => exact absurd trivial hg
  | Press cluster key => exact absurd trivial hg
  | Timeout => exact absurd trivial hg

/-- A run of undisturbed steps never waits with a stale display. A step at the
table that is disturbed can be followed by such a wait. -/
theorem no_refresh_is_missed_where_undisturbed {l₀ : Loop} (hl : start kinds cluster = .ok l₀) :
    (∀ events, Guarded (Loop.step std kinds) (Undisturbed std) l₀ events →
      Always (Loop.step std kinds) (NoMissedRefresh std) l₀ events) ∧
    ∀ l t e, l.state.jump_query = none → l.state.palette_query = none →
      Loop.step std kinds l e = some t → ¬ Undisturbed std l e →
      ∃ rest u, exec (Loop.step std kinds) t rest = some u ∧ ¬ NoMissedRefresh std u := by
  refine ⟨?_, ?_⟩
  · intro events hg
    have hinv : Always (Loop.step std kinds) (Watched std) l₀ events :=
      Always.of_guarded (fun l e t h hg ht => step_watched std kinds h hg ht)
        (start_watched std kinds cluster hl) hg
    exact hinv.mono fun l h => h.no_missed_refresh std
  · intro l t e hj hp ht hg
    exact disturbed_step_is_missed std kinds hj hp ht hg

end

/-- A patch that comes before the first query. -/
theorem a_patch_at_the_start_is_seen :
    ∃ l, start (all_kinds []) empty_cluster = .ok l ∧
      Always (@Loop.step mergeSort plain_timestamps ascii_uppercase (all_kinds []))
        (@NoMissedRefresh mergeSort plain_timestamps) l
        [.Patch (.upsert (pod_row "a")), .Advance empty_cluster] := by
  refine ⟨_, rfl, ?_⟩
  refine (@no_refresh_is_missed_where_undisturbed mergeSort plain_timestamps ascii_uppercase
    (all_kinds []) empty_cluster _ rfl).1 _ ?_
  intro t ht
  cases ht
  refine ⟨nofun, ?_⟩
  intro t ht
  cases ht
  exact ⟨trivial, trivial⟩

/-- A pod that comes between the first query and the read of the revision stays
off the screen: the loop waits with no rows beside a plane that holds one. -/
theorem a_pod_between_query_and_revision_is_missed :
    ∃ l t, start (all_kinds []) empty_cluster = .ok l ∧
      exec (@Loop.step mergeSort plain_timestamps ascii_uppercase (all_kinds [])) l
        [.Advance empty_cluster, .Patch (.upsert (pod_row "a")), .Advance empty_cluster,
          .Advance empty_cluster, .Draw 20] = some t ∧
      t.phase = .Poll ∧ t.state.plane.rows = [pod_row "a"] ∧ t.state.total = 0 ∧
      ¬ @NoMissedRefresh mergeSort plain_timestamps t := by
  let first : State := { kind := (all_kinds []).first, plane := new_plane (all_kinds []).first }
  have htotal : (@State.query mergeSort plain_timestamps first 0 10).2 = 0 := by
    rw [@State.query_eq, @State.length_table]
    rfl
  refine ⟨_, _, rfl, rfl, rfl, rfl, htotal, ?_⟩
  intro h
  have hshown := @shown_total mergeSort plain_timestamps _ (h rfl rfl rfl rfl)
  have hone : (@State.query mergeSort plain_timestamps first 0 10).2 = 1 := hshown
  rw [htotal] at hone
  cases hone

end kaptein_tui
