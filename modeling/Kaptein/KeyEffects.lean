-- What one step of the terminal frontend can do to its modes, to the view with
-- its history, and to the list of the fuzzy jump. The invariants over these are
-- read from the effects, and no arm of the loop is opened again.
import Kaptein.TuiLoop

open runs rust_slice windows kaptein_viewmodel kaptein_viewmodel.mem_plane kaptein_viewmodel.fuzzy

namespace kaptein_tui

/-! ## The effects -/

structure SameModes (s t : State) : Prop where
  palette : t.palette_query = s.palette_query
  jump : t.jump_query = s.jump_query
  help : t.help = s.help

structure SamePlace (s t : State) : Prop where
  kind : t.kind = s.kind
  namespace_ : t.namespace_ = s.namespace_
  back : t.back = s.back
  forward : t.forward = s.forward

/-- The list of the jump stays, and a frame with a line keeps one. -/
structure SameList (s t : State) : Prop where
  master : t.jump_master = s.jump_master
  order : t.jump_order = s.jump_order
  height : 0 < s.page_height → 0 < t.page_height

structure Still (s t : State) : Prop extends SameModes s t, SamePlace s t, SameList s t

/-- A change of the view. `Tab` and `n` record the old view, the commands of the palette
do not, and `[` and `]` take a view from the one stack and put the old one onto the other. -/
inductive Travel (kinds : Kinds) (s t : State) : Prop
  | record (hback : t.back = s.back ++ [nav_point s]) (hforward : t.forward = [])
    (hkind : t.kind = s.kind ∨ t.kind = next_kind kinds s.kind)
  | command (hback : t.back = s.back) (hforward : t.forward = s.forward)
    (hkind : t.kind = s.kind ∨ t.kind = next_kind kinds s.kind)
  | back (prev : NavPoint) (hprev : s.back.getLast? = some prev) (hback : t.back = s.back.dropLast)
    (hforward : t.forward = s.forward ++ [nav_point s]) (hkind : t.kind = find_kind kinds prev.gvk)
    (hnamespace : t.namespace_ = prev.namespace_)
  | forward (next : NavPoint) (hnext : s.forward.getLast? = some next)
    (hforward : t.forward = s.forward.dropLast) (hback : t.back = s.back ++ [nav_point s])
    (hkind : t.kind = find_kind kinds next.gvk) (hnamespace : t.namespace_ = next.namespace_)

theorem SameList.trans {s t u : State} (h : SameList s t) (h' : SameList t u) : SameList s u :=
  ⟨h'.master.trans h.master, h'.order.trans h.order, fun hpos => h'.height (h.height hpos)⟩

theorem Still.refl (s : State) : Still s s :=
  ⟨⟨rfl, rfl, rfl⟩, ⟨rfl, rfl, rfl, rfl⟩, ⟨rfl, rfl, id⟩⟩

theorem Still.trans {s t u : State} (h : Still s t) (h' : Still t u) : Still s u :=
  ⟨⟨h'.palette.trans h.palette, h'.jump.trans h.jump, h'.help.trans h.help⟩,
    ⟨h'.kind.trans h.kind, h'.namespace_.trans h.namespace_, h'.back.trans h.back,
      h'.forward.trans h.forward⟩,
    h.toSameList.trans h'.toSameList⟩

/-! ## The parts of a key -/

/-- The cursor, the sort and the panel are no part of the effects. -/
theorem still_cursor (s : State) (sort_key : Nat) (sort_descending : Bool) (selected scroll : Nat)
    (detail : Option String) :
    Still s { s with sort_key, sort_descending, selected, scroll, detail } :=
  ⟨⟨rfl, rfl, rfl⟩, ⟨rfl, rfl, rfl, rfl⟩, ⟨rfl, rfl, id⟩⟩

/-- Only the panel beside the table has changed. -/
def OnlyDetail (s t : State) : Prop := ∃ detail, t = { s with detail }

theorem OnlyDetail.still {s t : State} (h : OnlyDetail s t) : Still s t := by
  obtain ⟨detail, rfl⟩ := h
  exact still_cursor s _ _ _ _ _

theorem on_target_detail (s : State) (act : TableRow → Except String String) :
    OnlyDetail s (s.on_target act) := by
  unfold State.on_target
  split
  · exact ⟨_, rfl⟩
  · exact ⟨s.detail, rfl⟩

section

variable (cluster : Cluster)

theorem describe_detail (s : State) : OnlyDetail s (describe_selected cluster s) := by
  unfold describe_selected
  split
  · exact ⟨_, rfl⟩
  · exact on_target_detail s _

theorem diagnose_detail (s : State) : OnlyDetail s (diagnose_selected cluster s) := by
  unfold diagnose_selected
  split_ifs
  · exact ⟨_, rfl⟩
  · exact on_target_detail s _
  · exact ⟨_, rfl⟩

theorem health_detail (s : State) : OnlyDetail s (health_selected cluster s) := by
  unfold health_selected
  split
  · exact ⟨_, rfl⟩
  · exact on_target_detail s _

theorem logs_detail (s : State) : OnlyDetail s (logs_selected cluster s) := by
  unfold logs_selected
  split
  · exact on_target_detail s _
  · exact ⟨_, rfl⟩

/-- A plane is built, and the rest stays. -/
theorem rebuilt_cases {s : State} {phase : Phase} {l : Loop}
    (h : (rebuild_plane cluster s >>= fun t => pure ⟨t, phase⟩) = .ok l) :
    ∃ plane, l = ⟨{ s with plane }, phase⟩ := by
  rw [rebuild_plane_eq] at h
  cases hl : cluster.list s.kind s.namespace_ with
  | error e =>
    rw [hl] at h
    cases h
  | ok rows =>
    rw [hl] at h
    cases h
    exact ⟨_, rfl⟩

theorem still_rebuilt {s : State} {phase : Phase} {l : Loop}
    (h : (rebuild_plane cluster s >>= fun t => pure ⟨t, phase⟩) = .ok l) : Still s l.state := by
  obtain ⟨plane, rfl⟩ := rebuilt_cases cluster h
  exact ⟨⟨rfl, rfl, rfl⟩, ⟨rfl, rfl, rfl, rfl⟩, ⟨rfl, rfl, id⟩⟩

end

/-! ## What a key does -/

section

variable (std : StableSort) [TimestampText] [UppercaseTable] (kinds : Kinds) (cluster : Cluster)

/-- What a key does, and where the loop goes on. The keys of the table act while the
palette is closed, and the help opens where nothing else is open. -/
inductive Outcome (s : State) : Loop → Prop
  | detail {t : State} (h : OnlyDetail s t) : Outcome s ⟨t, .Top⟩
  | moved (sort_key : Nat) (sort_descending : Bool) (selected scroll : Nat)
    (hpalette : s.palette_query = none) :
    Outcome s ⟨State.requery_unless_jump std
      { s with sort_key, sort_descending, selected, scroll }, .Top⟩
  | help (b : Bool) (h : b = false ∨ s.palette_query = none ∧ s.jump_query = none) :
    Outcome s ⟨{ s with help := b }, .Top⟩
  | breadcrumbs (b : Bool) : Outcome s ⟨{ s with breadcrumbs := b }, .Top⟩
  | palette (q : Option String)
    (h : q = none ∨ s.palette_query.isSome = true ∨ s.jump_query = none) :
    Outcome s ⟨{ s with palette_query := q }, .Top⟩
  | command (cmd : PaletteCommand) {l : Loop} (hopen : s.palette_query.isSome = true)
    (h : execute_command std kinds cluster cmd { s with palette_query := none } = .ok l) :
    Outcome s l
  | enter (hhelp : s.help = false) (hpalette : s.palette_query = none) :
    Outcome s ⟨enter_jump std s, .Top⟩
  | rerank (q : String) (hopen : s.jump_query.isSome = true) : Outcome s ⟨s.rerank std q, .Top⟩
  | cancel (hpalette : s.palette_query = none) : Outcome s ⟨cancel_jump std s, .Top⟩
  | accept (hpalette : s.palette_query = none) : Outcome s (accept_jump std s)
  | refresh {l : Loop} (h : go_to cluster s = .ok l) (hpalette : s.palette_query = none) :
    Outcome s l
  | travel {t : State} {l : Loop} (h : go_to cluster t = .ok l) (hpalette : s.palette_query = none)
    (htravel : Travel kinds s t) (hmodes : SameModes s t) (hlist : SameList s t) : Outcome s l
  | quit : Outcome s ⟨s, .Quit⟩

variable {std kinds cluster}

omit [TimestampText] [UppercaseTable] in
theorem OnlyDetail.refl (s : State) : OnlyDetail s s := ⟨s.detail, rfl⟩

omit [TimestampText] in
theorem jump_char_cases (c : Char) (s : State) : jump_char std c s = s ∨
    ∃ q, s.jump_query = some q ∧ jump_char std c s = s.rerank std (q.push c) := by
  unfold jump_char
  cases hq : s.jump_query with
  | none => exact Or.inl rfl
  | some q =>
    dsimp only
    split
    · exact Or.inr ⟨q, rfl, rfl⟩
    · exact Or.inl rfl

theorem jump_char_outcome (c : Char) (s : State) :
    Outcome std kinds cluster s ⟨jump_char std c s, .Top⟩ := by
  rcases @jump_char_cases std _ c s with hsame | ⟨q, hq, htyped⟩
  · rw [hsame]
    exact .detail (.refl s)
  · rw [htyped]
    exact .rerank _ (by rw [hq]; rfl)

variable (std kinds cluster)

theorem next_namespace_outcome {s : State} {l : Loop} (hpalette : s.palette_query = none)
    (h : next_namespace std cluster s = .ok l) : Outcome std kinds cluster s l := by
  unfold next_namespace at h
  dsimp only at h
  cases hns : cycle_namespace std cluster (record_nav s).namespace_ with
  | error e =>
    rw [hns] at h
    cases h
  | ok namespace_ =>
    rw [hns] at h
    exact .travel h hpalette (.record rfl rfl (Or.inl rfl)) ⟨rfl, rfl, rfl⟩ ⟨rfl, rfl, id⟩

theorem go_back_outcome {s : State} {l : Loop} (hpalette : s.palette_query = none)
    (h : go_back kinds cluster s = .ok l) : Outcome std kinds cluster s l := by
  unfold go_back at h
  split at h
  · rename_i prev hprev
    exact .travel h hpalette (.back prev hprev rfl rfl rfl rfl) ⟨rfl, rfl, rfl⟩ ⟨rfl, rfl, id⟩
  · cases h
    exact .detail (.refl s)

theorem go_forward_outcome {s : State} {l : Loop} (hpalette : s.palette_query = none)
    (h : go_forward kinds cluster s = .ok l) : Outcome std kinds cluster s l := by
  unfold go_forward at h
  split at h
  · rename_i next hnext
    exact .travel h hpalette (.forward next hnext rfl rfl rfl rfl) ⟨rfl, rfl, rfl⟩ ⟨rfl, rfl, id⟩
  · cases h
    exact .detail (.refl s)

theorem char_key_outcome {c : Char} {s : State} {l : Loop}
    (h : char_key std kinds cluster c s = .ok l) (hpalette : s.palette_query = none)
    (hhelp : s.help = false) : Outcome std kinds cluster s l := by
  unfold char_key at h
  split at h
  · cases h; exact .moved _ _ _ _ hpalette
  · cases h; exact .moved _ _ _ _ hpalette
  · cases h; exact .moved _ _ _ _ hpalette
  · cases h; exact .moved _ _ _ _ hpalette
  · exact next_namespace_outcome std kinds cluster hpalette h
  · split at h
    · exact go_back_outcome std kinds cluster hpalette h
    · cases h; exact jump_char_outcome _ s
  · split at h
    · exact go_forward_outcome std kinds cluster hpalette h
    · cases h; exact jump_char_outcome _ s
  · cases h; exact .moved _ _ _ _ hpalette
  · cases h; exact .moved _ _ _ _ hpalette
  · cases h; exact .moved _ _ _ _ hpalette
  · cases h; exact .moved _ _ _ _ hpalette
  · cases h; exact .moved _ _ _ _ hpalette
  · cases h; exact .detail (describe_detail cluster s)
  · cases h; exact .detail (diagnose_detail cluster s)
  · cases h; exact .detail (health_detail cluster s)
  · cases h; exact .detail (on_target_detail s _)
  · cases h; exact .detail (logs_detail cluster s)
  · cases h; exact .detail (on_target_detail s _)
  · cases h; exact .detail (on_target_detail s _)
  · cases h; exact .enter hhelp hpalette
  · cases h; exact jump_char_outcome c s

/-- The first key after the help only closes it. -/
theorem outcome_unless_help {s : State} {l : Loop} {m : Except String Loop}
    (h : (if s.help then .ok ⟨{ s with help := false }, .Top⟩ else m) = .ok l)
    (hnext : s.help = false → m = .ok l → Outcome std kinds cluster s l) :
    Outcome std kinds cluster s l := by
  split at h
  · cases h
    exact .help false (Or.inl rfl)
  · rename_i hhelp
    exact hnext (by simpa using hhelp) h

/-- A key of the table does nothing while the palette is open. -/
theorem outcome_at_table {s : State} {l : Loop} {m : Except String Loop}
    (h : (if s.palette_query.isNone then m else .ok ⟨s, .Top⟩) = .ok l)
    (hnext : s.palette_query = none → m = .ok l → Outcome std kinds cluster s l) :
    Outcome std kinds cluster s l := by
  split at h
  · rename_i hclosed
    exact hnext (Option.isNone_iff_eq_none.mp hclosed) h
  · cases h
    exact .detail (.refl s)

theorem char_outcome {c : Char} {ctrl : Bool} {s : State} {l : Loop}
    (h : press std kinds cluster (.Char c ctrl) s = .ok l) : Outcome std kinds cluster s l := by
  have hfree : (s.palette_query.isNone && s.jump_query.isNone) = true →
      s.palette_query = none ∧ s.jump_query = none := by
    simp
  simp only [press] at h
  split at h
  · rename_i hquestion
    cases h
    exact .help _ (Or.inr (hfree (Bool.and_eq_true_iff.mp hquestion).2))
  split at h
  · cases h
    exact .quit
  split at h
  · cases h
    exact .breadcrumbs _
  split at h
  · rename_i hrefresh
    exact .refresh h (hfree (Bool.and_eq_true_iff.mp hrefresh).2).1
  refine outcome_unless_help std kinds cluster h fun hhelp h => ?_
  split at h
  · rename_i hcolon
    cases h
    exact .palette _ (Or.inr (Or.inr (hfree (Bool.and_eq_true_iff.mp hcolon).2).2))
  split at h
  · rename_i q hq
    split at h
    · cases h
      exact .palette _ (Or.inr (Or.inl (by rw [hq]; rfl)))
    · cases h
      exact jump_char_outcome c s
  · rename_i hclosed
    exact char_key_outcome std kinds cluster h hclosed hhelp

theorem press_outcome {key : Key} {s : State} {l : Loop}
    (h : press std kinds cluster key s = .ok l) : Outcome std kinds cluster s l := by
  cases key with
  | Esc =>
    simp only [press] at h
    split_ifs at h with hpalette hjump
    · cases h
      exact .palette none (Or.inl rfl)
    · cases h
      exact .cancel (by simpa using hpalette)
    · cases h
      exact .help false (Or.inl rfl)
  | Char c ctrl => exact char_outcome std kinds cluster h
  | Backspace =>
    refine outcome_unless_help std kinds cluster h fun _ h => ?_
    split at h
    · rename_i q _ hq
      cases h
      exact .palette _ (Or.inr (Or.inl (by rw [hq]; rfl)))
    · rename_i hq
      cases h
      exact .rerank _ (by rw [hq]; rfl)
    · cases h
      exact .detail (.refl s)
  | Enter =>
    refine outcome_unless_help std kinds cluster h fun _ h => ?_
    split at h
    · rename_i q hq
      unfold enter_palette at h
      split at h
      · cases h
        exact .quit
      · split at h
        · exact .command _ (by rw [hq]; rfl) h
        · cases h
          exact .palette none (Or.inl rfl)
    · rename_i hclosed
      split at h
      · cases h
        exact .accept hclosed
      · cases h
        exact .detail (.refl s)
  | Tab =>
    refine outcome_unless_help std kinds cluster h fun _ h => ?_
    refine outcome_at_table std kinds cluster h fun hclosed h => ?_
    exact .travel h hclosed (.record rfl rfl (Or.inr rfl)) ⟨rfl, rfl, rfl⟩ ⟨rfl, rfl, id⟩
  | Down =>
    refine outcome_unless_help std kinds cluster h fun _ h => ?_
    refine outcome_at_table std kinds cluster h fun hclosed h => ?_
    cases h
    exact .moved _ _ _ _ hclosed
  | Up =>
    refine outcome_unless_help std kinds cluster h fun _ h => ?_
    refine outcome_at_table std kinds cluster h fun hclosed h => ?_
    cases h
    exact .moved _ _ _ _ hclosed
  | Other =>
    cases h
    cases hhelp : s.help with
    | true => exact .help false (Or.inl rfl)
    | false => exact .detail (.refl s)

end

/-! ## What a command does -/

section

variable (std : StableSort) [TimestampText] (kinds : Kinds) (cluster : Cluster)

/-- What a command of the palette does, and where the loop goes on. -/
inductive Ran (s : State) : Loop → Prop
  | rebuilt {t : State} {l : Loop}
    (h : (rebuild_plane cluster t >>= fun t => pure ⟨t, .PaletteQuery⟩) = .ok l)
    (hkind : t.kind = s.kind ∨ t.kind = next_kind kinds s.kind) (hback : t.back = s.back)
    (hforward : t.forward = s.forward) (hmodes : SameModes s t) (hlist : SameList s t) : Ran s l
  | sorted (sort_key : Nat) (sort_descending : Bool) :
    Ran s ⟨State.palette_rows std { s with sort_key, sort_descending }, .Top⟩
  | detail {t : State} (h : OnlyDetail s t) : Ran s ⟨t, .Top⟩
  | quit : Ran s ⟨s, .Quit⟩

theorem execute_command_ran {cmd : PaletteCommand} {s : State} {l : Loop}
    (h : execute_command std kinds cluster cmd s = .ok l) : Ran std kinds cluster s l := by
  unfold execute_command at h
  split at h
  · exact .rebuilt h (Or.inr rfl) rfl rfl ⟨rfl, rfl, rfl⟩ ⟨rfl, rfl, id⟩
  · cases hns : cycle_namespace std cluster s.namespace_ with
    | error e =>
      rw [hns] at h
      cases h
    | ok namespace_ =>
      rw [hns] at h
      exact .rebuilt h (Or.inl rfl) rfl rfl ⟨rfl, rfl, rfl⟩ ⟨rfl, rfl, id⟩
  · cases h
    exact .sorted _ _
  · cases h
    exact .sorted _ _
  · split at h
    · cases h
      exact .detail ⟨_, rfl⟩
    · cases h
      exact .detail (.refl s)
  · split at h
    · cases h
      exact .detail ⟨_, rfl⟩
    · cases h
      exact .detail ⟨_, rfl⟩
  · cases h
    exact .quit

end

/-! ## The effect of a key -/

section

variable (std : StableSort) [TimestampText] [UppercaseTable] (kinds : Kinds)

/-- The effects of a step. The help opens where nothing else is open, and the palette takes
a character only while it is open. -/
inductive Effect (s t : State) : Prop
  | still (h : Still s t)
  | travel (htravel : Travel kinds s t) (hlist : SameList s t) (hjump : t.jump_query = s.jump_query)
    (hhelp : t.help = s.help)
    (hpalette : t.palette_query = s.palette_query ∨ t.palette_query = none)
  | help (hplace : SamePlace s t) (hlist : SameList s t) (hjump : t.jump_query = s.jump_query)
    (hpalette : t.palette_query = s.palette_query)
    (hhelp : t.help = false ∨ s.palette_query = none ∧ s.jump_query = none)
  | palette (hplace : SamePlace s t) (hlist : SameList s t) (hjump : t.jump_query = s.jump_query)
    (hhelp : t.help = s.help)
    (hpalette : t.palette_query = none ∨ s.palette_query.isSome = true ∨ s.jump_query = none)
  | close (hplace : SamePlace s t) (hlist : SameList s t) (hjump : t.jump_query = none)
    (hhelp : t.help = s.help) (hpalette : t.palette_query = s.palette_query)
  | typed (q : String) (hplace : SamePlace s t) (hopen : s.jump_query.isSome = true)
    (hjump : t.jump_query = some q) (hmaster : t.jump_master = s.jump_master)
    (horder : t.jump_order = fuzzy_rerank std s.jump_master q)
    (hheight : t.page_height = s.page_height) (hhelp : t.help = s.help)
    (hpalette : t.palette_query = s.palette_query)
  | enter (hhelp : s.help = false) (hpalette : s.palette_query = none) (ht : t = enter_jump std s)

variable {std kinds}

omit [UppercaseTable] in
theorem still_requery {s t : State} (h : Still s t) : Still s (t.requery_unless_jump std) := by
  unfold State.requery_unless_jump
  split
  · exact ⟨⟨h.palette, h.jump, h.help⟩, ⟨h.kind, h.namespace_, h.back, h.forward⟩,
      ⟨h.master, h.order, h.height⟩⟩
  · exact h

omit [TimestampText] [UppercaseTable] in
theorem Travel.still {s t u : State} (h : Travel kinds s t) (hu : Still t u) :
    Travel kinds s u := by
  cases h with
  | record hback hforward hkind =>
    exact .record (hu.back.trans hback) (hu.forward.trans hforward) (by rwa [hu.kind])
  | command hback hforward hkind =>
    exact .command (hu.back.trans hback) (hu.forward.trans hforward) (by rwa [hu.kind])
  | back prev hprev hback hforward hkind hnamespace =>
    exact .back prev hprev (hu.back.trans hback) (hu.forward.trans hforward)
      (hu.kind.trans hkind) (hu.namespace_.trans hnamespace)
  | forward next hnext hforward hback hkind hnamespace =>
    exact .forward next hnext (hu.forward.trans hforward) (hu.back.trans hback)
      (hu.kind.trans hkind) (hu.namespace_.trans hnamespace)

variable (std kinds) (cluster : Cluster)

variable {cluster} in
/-- A command runs after the palette has closed. -/
theorem Ran.effect {s : State} {l : Loop}
    (h : Ran std kinds cluster { s with palette_query := none } l) :
    Effect std kinds s l.state := by
  have hclosed : ∀ (sort_key : Nat) (sort_descending : Bool) (selected scroll : Nat)
      (detail : Option String) (rows : List TableRow) (asked : Asked),
      Effect std kinds s { s with
        palette_query := none, sort_key, sort_descending, selected, scroll, detail, rows, asked } :=
    fun _ _ _ _ _ _ _ => .palette ⟨rfl, rfl, rfl, rfl⟩ ⟨rfl, rfl, id⟩ rfl rfl (Or.inl rfl)
  cases h with
  | rebuilt h hkind hback hforward hmodes hlist =>
    have hstill := still_rebuilt cluster h
    have htravel : Travel kinds s _ := .command hback hforward hkind
    have hclose : SameList s { s with palette_query := none } := ⟨rfl, rfl, id⟩
    exact .travel (htravel.still hstill) ((hclose.trans hlist).trans hstill.toSameList)
      (hstill.jump.trans hmodes.jump) (hstill.help.trans hmodes.help)
      (Or.inr (hstill.palette.trans hmodes.palette))
  | sorted => exact hclosed _ _ _ _ _ _ _
  | detail h =>
    obtain ⟨detail, rfl⟩ := h
    exact hclosed _ _ _ _ _ _ _
  | quit => exact hclosed _ _ _ _ _ _ _

theorem accept_jump_effect (s : State) : Effect std kinds s (accept_jump std s).state := by
  unfold accept_jump
  split
  · exact .close ⟨rfl, rfl, rfl, rfl⟩ ⟨rfl, rfl, id⟩ rfl rfl rfl
  · exact .close ⟨rfl, rfl, rfl, rfl⟩ ⟨rfl, rfl, id⟩ rfl rfl rfl

variable {cluster} in
theorem Outcome.effect {s : State} {l : Loop} (h : Outcome std kinds cluster s l) :
    Effect std kinds s l.state := by
  cases h with
  | detail h => exact .still h.still
  | moved sort_key sort_descending selected scroll =>
    exact .still (still_requery (still_cursor s _ _ _ _ s.detail))
  | help b h => exact .help ⟨rfl, rfl, rfl, rfl⟩ ⟨rfl, rfl, id⟩ rfl rfl h
  | breadcrumbs b => exact .still ⟨⟨rfl, rfl, rfl⟩, ⟨rfl, rfl, rfl, rfl⟩, ⟨rfl, rfl, id⟩⟩
  | palette q h => exact .palette ⟨rfl, rfl, rfl, rfl⟩ ⟨rfl, rfl, id⟩ rfl rfl h
  | command cmd _ h => exact (execute_command_ran std kinds cluster h).effect
  | enter hhelp hpalette => exact .enter hhelp hpalette rfl
  | rerank q hopen => exact .typed q ⟨rfl, rfl, rfl, rfl⟩ hopen rfl rfl rfl rfl rfl rfl
  | cancel => exact .close ⟨rfl, rfl, rfl, rfl⟩ ⟨rfl, rfl, id⟩ rfl rfl rfl
  | accept => exact accept_jump_effect std kinds s
  | refresh h => exact .still (still_rebuilt cluster h)
  | travel h _ htravel hmodes hlist =>
    have hstill := still_rebuilt cluster h
    exact .travel (htravel.still hstill) (hlist.trans hstill.toSameList)
      (hstill.jump.trans hmodes.jump) (hstill.help.trans hmodes.help)
      (Or.inl (hstill.palette.trans hmodes.palette))
  | quit => exact .still (.refl s)

theorem press_effect {key : Key} {s : State} {l : Loop}
    (h : press std kinds cluster key s = .ok l) : Effect std kinds s l.state :=
  (press_outcome std kinds cluster h).effect

/-! ## One step of the loop -/

omit [UppercaseTable] in
theorem still_advance (l : Loop) : Still l.state (advance std cluster l).state := by
  unfold advance
  dsimp only
  split
  case h_3 =>
    split_ifs <;> exact .refl l.state
  all_goals exact ⟨⟨rfl, rfl, rfl⟩, ⟨rfl, rfl, rfl, rfl⟩, ⟨rfl, rfl, id⟩⟩

theorem step_press {l l' : Loop} {key : Key}
    (h : Loop.step std kinds l (.Press cluster key) = some l') :
    press std kinds cluster key l.state = .ok l' := by
  obtain ⟨-, h⟩ := Option.ite_none_right_eq_some.mp h
  cases hpress : press std kinds cluster key l.state with
  | error e =>
    rw [hpress] at h
    cases h
  | ok next =>
    rw [hpress] at h
    cases h
    rfl

/-- The key of an event, if it is a press. -/
def Event.key : Event → Option Key
  | .Press _ key => some key
  | _ => none

/-- Between two keys only the rows, the cursor and the plane can change. -/
theorem idle_still {l l' : Loop} {e : Event} (he : e.key = none)
    (h : Loop.step std kinds l e = some l') : Still l.state l'.state := by
  cases e with
  | Patch w =>
    cases h
    exact ⟨⟨rfl, rfl, rfl⟩, ⟨rfl, rfl, rfl, rfl⟩, ⟨rfl, rfl, id⟩⟩
  | Advance cluster =>
    simp only [Loop.step] at h
    split at h
    iterate 3 cases h
    cases h
    exact still_advance std cluster l
  | Draw height =>
    obtain ⟨-, h⟩ := Option.ite_none_right_eq_some.mp h
    cases h
    have hheight : 0 < max (height - 3) 1 := by omega
    exact ⟨⟨rfl, rfl, rfl⟩, ⟨rfl, rfl, rfl, rfl⟩, ⟨rfl, rfl, fun _ => hheight⟩⟩
  | Press cluster key => cases he
  | Timeout =>
    obtain ⟨-, h⟩ := Option.ite_none_right_eq_some.mp h
    cases h
    exact .refl l.state

theorem step_effect {l l' : Loop} {e : Event} (h : Loop.step std kinds l e = some l') :
    Effect std kinds l.state l'.state := by
  cases e with
  | Press cluster key => exact press_effect std kinds cluster (step_press std kinds cluster h)
  | Patch | Advance | Draw | Timeout => exact .still (idle_still std kinds rfl h)

end

end kaptein_tui
