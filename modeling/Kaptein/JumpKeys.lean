-- The characters of the fuzzy jump. The keys of the table stand in one chain of
-- arms, and most of their arms ask for a closed palette and for nothing else.
import Kaptein.KeyEffects
import Kaptein.Viewport

open runs rust_slice windows kaptein_viewmodel kaptein_viewmodel.mem_plane kaptein_viewmodel.fuzzy

namespace kaptein_tui

section

variable (std : StableSort) [TimestampText] [UppercaseTable] (kinds : Kinds) (cluster : Cluster)

/-! ## One mode at a time -/

/-- In the jump mode neither the palette nor the help is open. -/
def OneMode (s : State) : Prop :=
  s.jump_query.isSome = true → s.palette_query = none ∧ s.help = false

variable {std kinds} in
theorem OneMode.effect {s t : State} (hs : OneMode s) (h : Effect std kinds s t) : OneMode t := by
  unfold OneMode
  intro hopen
  cases h with
  | still h =>
    rw [h.palette, h.help]
    rw [h.jump] at hopen
    exact hs hopen
  | travel htravel hlist hjump hhelp hpalette =>
    rw [hjump] at hopen
    obtain ⟨hclosed, hoff⟩ := hs hopen
    refine ⟨?_, hhelp.trans hoff⟩
    rcases hpalette with hsame | hnone
    · exact hsame.trans hclosed
    · exact hnone
  | help hplace hlist hjump hpalette hhelp =>
    rw [hjump] at hopen
    obtain ⟨hclosed, hoff⟩ := hs hopen
    refine ⟨hpalette.trans hclosed, ?_⟩
    rcases hhelp with hoff' | ⟨-, hfree⟩
    · exact hoff'
    · simp [hfree] at hopen
  | palette hplace hlist hjump hhelp hpalette =>
    rw [hjump] at hopen
    obtain ⟨hclosed, hoff⟩ := hs hopen
    refine ⟨?_, hhelp.trans hoff⟩
    rcases hpalette with hnone | hsome | hfree
    · exact hnone
    · simp [hclosed] at hsome
    · simp [hfree] at hopen
  | close hplace hlist hjump hhelp hpalette => simp [hjump] at hopen
  | typed q hplace hwas hjump hmaster horder hheight hhelp hpalette =>
    rw [hpalette, hhelp]
    exact hs hwas
  | enter hhelp hpalette ht =>
    rw [ht]
    exact ⟨hpalette, hhelp⟩

omit [TimestampText] [UppercaseTable] in
theorem start_oneMode {l : Loop} (h : start kinds cluster = .ok l) : OneMode l.state := by
  have hstill := still_rebuilt cluster h
  unfold OneMode
  intro hopen
  rw [hstill.jump] at hopen
  cases hopen

/-- The modes of a session exclude one another. -/
theorem reachable_oneMode {l₀ l : Loop} {events : List Event} (hl : start kinds cluster = .ok l₀)
    (hrun : exec (Loop.step std kinds) l₀ events = some l) : OneMode l.state := by
  have hinv : Always (Loop.step std kinds) (fun l => OneMode l.state) l₀ events := by
    apply Always.of_step
    · intro l e t h ht
      exact OneMode.effect h (step_effect std kinds ht)
    · exact start_oneMode kinds cluster hl
  exact hinv.last hrun

/-! ## The letters of the table -/

/-- The letters that move the cursor. They know the list of the jump. -/
def move_letters : List Char := ['j', 'k', 'g', 'G']

/-- The letters of the sort. In the jump mode they fetch nothing. -/
def sort_letters : List Char := ['O', 'N', 'A', 'P', 'S']

/-- The actions. In the jump mode they take the row under its cursor. -/
def action_letters : List Char := ['d', 'i', 'h', 'y', 'l', 'B', 'W']

/-- The letters whose arms ask for a closed palette alone. -/
def table_letters : List Char := move_letters ++ 'n' :: (sort_letters ++ action_letters)

theorem press_in_jump (c : Char) {s : State} (hm : OneMode s) (hopen : s.jump_query.isSome = true) :
    press std kinds cluster (.Char c false) s = char_key std kinds cluster c s := by
  obtain ⟨hclosed, hoff⟩ := hm hopen
  have hfree : s.jump_query.isNone = false := by simpa using hopen
  simp [press, hclosed, hoff, hfree]

theorem char_key_in_jump {c : Char} {s : State} (hopen : s.jump_query.isSome = true)
    (hc : c ≠ '/') (hletter : c ∉ table_letters) :
    char_key std kinds cluster c s = .ok ⟨jump_char std c s, .Top⟩ := by
  have hfree : s.jump_query.isNone = false := by simpa using hopen
  unfold char_key
  split
  case h_6 => rw [hfree]; rfl
  case h_7 => rw [hfree]; rfl
  case h_20 => exact absurd rfl hc
  case h_21 => rfl
  all_goals exact absurd (by decide) hletter

/-! ## What a character leaves alone -/

structure StaysPut (s t : State) : Prop extends SamePlace s t where
  plane : t.plane = s.plane

structure SameSort (s t : State) : Prop where
  sort_key : t.sort_key = s.sort_key
  sort_descending : t.sort_descending = s.sort_descending

/-- The character ends up in the query, and nothing else happens. -/
def Types (c : Char) (q : String) (s : State) : Prop :=
  ∃ l, press std kinds cluster (.Char c false) s = .ok l ∧ l.state.jump_query = some (q.push c) ∧
    StaysPut s l.state ∧ SameSort s l.state ∧ l.state.detail = s.detail

/-- The character is a key of the table. It stays out of the query and keeps the view. -/
def Commands (c : Char) (q : String) (s : State) : Prop :=
  ∃ l, press std kinds cluster (.Char c false) s = .ok l ∧ l.state.jump_query = some q ∧
    StaysPut s l.state ∧ (c ∉ sort_letters → SameSort s l.state) ∧
    (c ∉ action_letters → l.state.detail = s.detail)

theorem other_types {c : Char} {q : String} {s : State} (hm : OneMode s)
    (hq : s.jump_query = some q) (hc : c ≠ '/') (hletter : c ∉ table_letters) :
    Types std kinds cluster c q s := by
  have hopen : s.jump_query.isSome = true := by rw [hq]; rfl
  have htyped : jump_char std c s = s.rerank std (q.push c) := by
    unfold jump_char
    rw [hq]
    exact if_pos hc
  unfold Types
  rw [press_in_jump std kinds cluster c hm hopen,
    char_key_in_jump std kinds cluster hopen hc hletter, htyped]
  exact ⟨_, rfl, rfl, ⟨⟨rfl, rfl, rfl, rfl⟩, rfl⟩, ⟨rfl, rfl⟩, rfl⟩

omit [UppercaseTable] in
theorem requery_in_jump {s : State} (hopen : s.jump_query.isSome = true) :
    s.requery_unless_jump std = s := by
  have hfree : s.jump_query.isNone = false := by simpa using hopen
  unfold State.requery_unless_jump
  rw [hfree]
  rfl

theorem moved_commands {c : Char} {q : String} {s t : State} (hq : s.jump_query = some q)
    (hkey : press std kinds cluster (.Char c false) s = .ok ⟨t.requery_unless_jump std, .Top⟩)
    (hjump : t.jump_query = s.jump_query) (hview : StaysPut s t) (hdetail : t.detail = s.detail)
    (hsort : c ∉ sort_letters → SameSort s t) : Commands std kinds cluster c q s := by
  have hsame : t.requery_unless_jump std = t := by
    apply requery_in_jump
    rw [hjump, hq]
    rfl
  rw [hsame] at hkey
  exact ⟨_, hkey, hjump.trans hq, hview, hsort, fun _ => hdetail⟩

theorem detail_commands {c : Char} {q : String} {s t : State} (hq : s.jump_query = some q)
    (hkey : press std kinds cluster (.Char c false) s = .ok ⟨t, .Top⟩) (h : OnlyDetail s t)
    (haction : c ∈ action_letters) : Commands std kinds cluster c q s := by
  obtain ⟨detail, rfl⟩ := h
  exact ⟨_, hkey, hq, ⟨⟨rfl, rfl, rfl, rfl⟩, rfl⟩, fun _ => ⟨rfl, rfl⟩, fun h => absurd haction h⟩

theorem move_commands {c : Char} {q : String} {s : State} (hm : OneMode s)
    (hq : s.jump_query = some q) (hletter : c ∈ move_letters) :
    Commands std kinds cluster c q s := by
  have hpress := press_in_jump std kinds cluster c hm (by rw [hq]; rfl)
  simp only [move_letters, List.mem_cons, List.not_mem_nil, or_false] at hletter
  rcases hletter with rfl | rfl | rfl | rfl
  all_goals
    exact moved_commands std kinds cluster hq hpress rfl ⟨⟨rfl, rfl, rfl, rfl⟩, rfl⟩ rfl
      fun _ => ⟨rfl, rfl⟩

theorem sort_commands {c : Char} {q : String} {s : State} (hm : OneMode s)
    (hq : s.jump_query = some q) (hletter : c ∈ sort_letters) :
    Commands std kinds cluster c q s := by
  have hpress := press_in_jump std kinds cluster c hm (by rw [hq]; rfl)
  simp only [sort_letters, List.mem_cons, List.not_mem_nil, or_false] at hletter
  rcases hletter with rfl | rfl | rfl | rfl | rfl
  all_goals
    exact moved_commands std kinds cluster hq hpress rfl ⟨⟨rfl, rfl, rfl, rfl⟩, rfl⟩ rfl
      fun h => absurd (by decide) h

theorem action_commands {c : Char} {q : String} {s : State} (hm : OneMode s)
    (hq : s.jump_query = some q) (hletter : c ∈ action_letters) :
    Commands std kinds cluster c q s := by
  have hpress := press_in_jump std kinds cluster c hm (by rw [hq]; rfl)
  simp only [action_letters, List.mem_cons, List.not_mem_nil, or_false] at hletter
  rcases hletter with rfl | rfl | rfl | rfl | rfl | rfl | rfl
  · exact detail_commands std kinds cluster hq hpress (describe_detail cluster s) (by decide)
  · exact detail_commands std kinds cluster hq hpress (diagnose_detail cluster s) (by decide)
  · exact detail_commands std kinds cluster hq hpress (health_detail cluster s) (by decide)
  · exact detail_commands std kinds cluster hq hpress (on_target_detail s _) (by decide)
  · exact detail_commands std kinds cluster hq hpress (logs_detail cluster s) (by decide)
  · exact detail_commands std kinds cluster hq hpress (on_target_detail s _) (by decide)
  · exact detail_commands std kinds cluster hq hpress (on_target_detail s _) (by decide)

theorem letter_commands {c : Char} {q : String} {s : State} (hm : OneMode s)
    (hq : s.jump_query = some q) (hletter : c ∈ table_letters) (hn : c ≠ 'n') :
    Commands std kinds cluster c q s := by
  unfold table_letters at hletter
  rw [List.mem_append, List.mem_cons, List.mem_append] at hletter
  rcases hletter with hmove | heq | hsort | haction
  · exact move_commands std kinds cluster hm hq hmove
  · exact absurd heq hn
  · exact sort_commands std kinds cluster hm hq hsort
  · exact action_commands std kinds cluster hm hq haction

/-- In the jump mode a character is typed, unless it is a letter of the table. These
letters keep their meaning, for the list of the jump, and keep the view and the query. -/
theorem jump_types_all_but_the_table_letters {cluster₀ : Cluster} {l₀ l : Loop}
    {events : List Event} {q : String} {c : Char} (hl : start kinds cluster₀ = .ok l₀)
    (hrun : exec (Loop.step std kinds) l₀ events = some l) (hq : l.state.jump_query = some q)
    (hc : c ≠ '/') :
    (c ∉ table_letters → Types std kinds cluster c q l.state) ∧
      (c ∈ table_letters → c ≠ 'n' → Commands std kinds cluster c q l.state) := by
  have hm : OneMode l.state := reachable_oneMode std kinds cluster₀ hl hrun
  constructor
  · exact other_types std kinds cluster hm hq hc
  · exact letter_commands std kinds cluster hm hq

variable {std kinds cluster} in
theorem Commands.not_types {c : Char} {q : String} {s : State}
    (h : Commands std kinds cluster c q s) : ¬ Types std kinds cluster c q s := by
  obtain ⟨l, hkey, hquery, -⟩ := h
  rintro ⟨t, hkey', hpushed, -⟩
  rw [hkey] at hkey'
  cases hkey'
  rw [hquery] at hpushed
  have hlength := congrArg String.length (Option.some.inj hpushed)
  rw [String.length_push] at hlength
  omega

end

/-! ## A session with the jump open -/

/-- The first frame, and then the jump. -/
def open_jump : List Event :=
  [.Advance empty_cluster, .Advance empty_cluster, .Advance empty_cluster, .Draw 20,
    .Press empty_cluster (.Char '/' false), .Advance empty_cluster, .Draw 20]

theorem an_a_is_typed :
    ∃ l₀ l, start (all_kinds []) empty_cluster = .ok l₀ ∧
      exec (@Loop.step mergeSort plain_timestamps ascii_uppercase (all_kinds [])) l₀ open_jump =
        some l ∧
      l.state.jump_query = some "" ∧
      @Types mergeSort plain_timestamps ascii_uppercase (all_kinds []) empty_cluster 'a' ""
        l.state :=
  ⟨_, _, rfl, rfl, rfl, (@jump_types_all_but_the_table_letters mergeSort plain_timestamps
    ascii_uppercase (all_kinds []) empty_cluster empty_cluster _ _ open_jump "" 'a' rfl rfl rfl
    (by decide)).1 (by decide)⟩

/-- The `h` of a name asks for the health of a row, and the query stays empty. -/
theorem an_h_is_not_typed :
    ∃ l₀ l l', start (all_kinds []) empty_cluster = .ok l₀ ∧
      exec (@Loop.step mergeSort plain_timestamps ascii_uppercase (all_kinds [])) l₀ open_jump =
        some l ∧
      l.state.jump_query = some "" ∧ l.state.detail = none ∧
      @press mergeSort plain_timestamps ascii_uppercase (all_kinds []) empty_cluster
        (.Char 'h' false) l.state = .ok l' ∧
      l'.state.jump_query = some "" ∧
      l'.state.detail = some "Health checks are available for lens-driven kinds only." ∧
      ¬ @Types mergeSort plain_timestamps ascii_uppercase (all_kinds []) empty_cluster 'h' ""
        l.state := by
  refine ⟨_, _, _, rfl, rfl, rfl, rfl, rfl, rfl, rfl, ?_⟩
  apply @Commands.not_types mergeSort plain_timestamps ascii_uppercase
  apply @action_commands mergeSort plain_timestamps ascii_uppercase
  · exact fun _ => ⟨rfl, rfl⟩
  · rfl
  · decide

end kaptein_tui
