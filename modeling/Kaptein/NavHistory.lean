-- The history of the views. A point of it keeps the target of a kind and no more, so a
-- turn back to a view comes to the first kind with the target.
import Kaptein.KeyEffects
import Kaptein.KindCycle
import Kaptein.Lib.History
import Kaptein.Viewport

open runs histories rust_slice windows kaptein_viewmodel kaptein_viewmodel.mem_plane
  kaptein_viewmodel.fuzzy

namespace kaptein_tui

/-! ## The keys of a run -/

section

variable (std : StableSort) [TimestampText] [UppercaseTable] (kinds : Kinds)

/-- The keys are pressed one after another, with any other work between them. -/
inductive Presses : List Key → State → State → Prop
  | done {s t : State} (h : Still s t) : Presses [] s t
  | press {key : Key} {keys : List Key} {s t u : State} {l : Loop} (cluster : Cluster)
    (hstill : Still s t) (hkey : press std kinds cluster key t = .ok l)
    (hrest : Presses keys l.state u) : Presses (key :: keys) s u

variable {std kinds}

theorem Presses.of_still {keys : List Key} {s t u : State} (hstill : Still s t)
    (h : Presses std kinds keys t u) : Presses std kinds keys s u := by
  cases h with
  | done h => exact .done (hstill.trans h)
  | press cluster h hkey hrest => exact .press cluster (hstill.trans h) hkey hrest

theorem presses_of_exec {l l' : Loop} {events : List Event}
    (h : exec (Loop.step std kinds) l events = some l') :
    Presses std kinds (events.filterMap Event.key) l.state l'.state := by
  induction events generalizing l with
  | nil =>
    cases h
    exact .done (.refl _)
  | cons e events ih =>
    obtain ⟨t, ht, hrest⟩ := Option.bind_eq_some_iff.mp h
    have hkeys := ih hrest
    cases e with
    | Press cluster key => exact .press cluster (.refl _) (step_press std kinds cluster ht) hkeys
    | Patch | Advance | Draw | Timeout => exact hkeys.of_still (idle_still std kinds rfl ht)

/-! ## The targets of the points -/

variable (kinds) in
/-- A kind of the session has the target. -/
def Known (gvk : kube.GroupVersionKind) : Prop := ∃ kind ∈ kinds.all, kind.gvk = gvk

variable (kinds) in
structure Placed (s : State) : Prop where
  kind : Known kinds s.kind.gvk
  back : ∀ p ∈ s.back, Known kinds p.gvk
  forward : ∀ p ∈ s.forward, Known kinds p.gvk

omit [TimestampText] [UppercaseTable] in
theorem find_kind_gvk {gvk : kube.GroupVersionKind} (h : Known kinds gvk) :
    (find_kind kinds gvk).gvk = gvk := by
  obtain ⟨kind, hmem, hgvk⟩ := h
  have hsome : (kinds.all.find? fun k => k.gvk == gvk).isSome = true := by
    rw [List.find?_isSome]
    exact ⟨kind, hmem, by simp [hgvk]⟩
  obtain ⟨first, hfirst⟩ := Option.isSome_iff_exists.mp hsome
  have hgvk' := List.find?_some hfirst
  unfold find_kind
  rw [hfirst]
  simpa using hgvk'

omit [TimestampText] [UppercaseTable] in
theorem next_kind_known (kind : Kind) : Known kinds (next_kind kinds kind).gvk :=
  ⟨_, List.get_mem _ _, rfl⟩

omit [TimestampText] [UppercaseTable] in
theorem Placed.same {s t : State} (hs : Placed kinds s) (h : SamePlace s t) : Placed kinds t := by
  refine ⟨?_, ?_, ?_⟩
  · rw [h.kind]
    exact hs.kind
  · rw [h.back]
    exact hs.back
  · rw [h.forward]
    exact hs.forward

omit [TimestampText] [UppercaseTable] in
theorem Placed.travel {s t : State} (hs : Placed kinds s) (h : Travel kinds s t) :
    Placed kinds t := by
  have hkinds : t.kind = s.kind ∨ t.kind = next_kind kinds s.kind → Known kinds t.kind.gvk := by
    rintro (hsame | hnext)
    · rw [hsame]
      exact hs.kind
    · rw [hnext]
      exact next_kind_known _
  have hpoint : ∀ {points : List NavPoint}, (∀ p ∈ points, Known kinds p.gvk) →
      ∀ p ∈ points ++ [nav_point s], Known kinds p.gvk := by
    intro points hpoints p hp
    rcases List.mem_append.mp hp with hold | hnew
    · exact hpoints p hold
    · rw [List.mem_singleton.mp hnew]
      exact hs.kind
  cases h with
  | record hback hforward hkind =>
    refine ⟨hkinds hkind, ?_, ?_⟩
    · rw [hback]
      exact hpoint hs.back
    · rw [hforward]
      exact nofun
  | command hback hforward hkind =>
    refine ⟨hkinds hkind, ?_, ?_⟩
    · rw [hback]
      exact hs.back
    · rw [hforward]
      exact hs.forward
  | back prev hprev hback hforward hkind hnamespace =>
    refine ⟨?_, ?_, ?_⟩
    · rw [hkind, find_kind_gvk (hs.back prev (List.mem_of_getLast? hprev))]
      exact hs.back prev (List.mem_of_getLast? hprev)
    · rw [hback]
      exact fun p hp => hs.back p (List.mem_of_mem_dropLast hp)
    · rw [hforward]
      exact hpoint hs.forward
  | forward next hnext hforward hback hkind hnamespace =>
    refine ⟨?_, ?_, ?_⟩
    · rw [hkind, find_kind_gvk (hs.forward next (List.mem_of_getLast? hnext))]
      exact hs.forward next (List.mem_of_getLast? hnext)
    · rw [hback]
      exact hpoint hs.back
    · rw [hforward]
      exact fun p hp => hs.forward p (List.mem_of_mem_dropLast hp)

theorem Placed.effect {s t : State} (hs : Placed kinds s) (h : Effect std kinds s t) :
    Placed kinds t := by
  cases h with
  | still h => exact hs.same h.toSamePlace
  | travel htravel => exact hs.travel htravel
  | help hplace => exact hs.same hplace
  | palette hplace => exact hs.same hplace
  | close hplace => exact hs.same hplace
  | typed q hplace => exact hs.same hplace
  | enter _ _ ht =>
    rw [ht]
    exact hs.same ⟨rfl, rfl, rfl, rfl⟩

theorem reachable_placed {cluster : Cluster} {l₀ l : Loop} {events : List Event}
    (hl : start kinds cluster = .ok l₀) (hrun : exec (Loop.step std kinds) l₀ events = some l) :
    Placed kinds l.state := by
  have hinv : Always (Loop.step std kinds) (fun l => Placed kinds l.state) l₀ events := by
    apply Always.of_step
    · intro l e t h ht
      exact Placed.effect h (step_effect std kinds ht)
    · apply Placed.same _ (still_rebuilt cluster hl).toSamePlace
      exact ⟨⟨_, List.mem_cons_self, rfl⟩, nofun, nofun⟩
  exact hinv.last hrun

/-! ## One turn -/

def hist (s : State) : History NavPoint := ⟨s.back, nav_point s, s.forward⟩

variable (kinds) in
/-- The view of a point, before its plane is built. -/
def State.turned (s : State) (h : History NavPoint) : State :=
  { s with
    back := h.back
    forward := h.forward
    kind := find_kind kinds h.here.gvk
    namespace_ := h.here.namespace_ }

def Turn.key : Turn → Key
  | .Back => .Char '[' false
  | .Forward => .Char ']' false

/-- Nothing is open that would take the key. -/
structure Free (s : State) : Prop where
  palette : s.palette_query = none
  jump : s.jump_query = none
  help : s.help = false

theorem press_turn {cluster : Cluster} (turn : Turn) {s : State} (hfree : Free s) :
    press std kinds cluster (Turn.key turn) s =
      ((hist s).turn turn).elim (.ok ⟨s, .Top⟩) fun h => go_to cluster (s.turned kinds h) := by
  cases turn with
  | Back =>
    have hpress : press std kinds cluster (Turn.key .Back) s = go_back kinds cluster s := by
      simp [Turn.key, press, char_key, hfree.palette, hfree.jump, hfree.help]
    rw [hpress]
    unfold go_back
    simp only [hist, History.turn]
    cases s.back.getLast? with
    | none => rfl
    | some prev => rfl
  | Forward =>
    have hpress : press std kinds cluster (Turn.key .Forward) s = go_forward kinds cluster s := by
      simp [Turn.key, press, char_key, hfree.palette, hfree.jump, hfree.help]
    rw [hpress]
    unfold go_forward
    simp only [hist, History.turn]
    cases s.forward.getLast? with
    | none => rfl
    | some next => rfl

omit [TimestampText] [UppercaseTable] in
theorem Free.still {s t : State} (hs : Free s) (h : Still s t) : Free t :=
  ⟨h.palette.trans hs.palette, h.jump.trans hs.jump, h.help.trans hs.help⟩

omit [TimestampText] [UppercaseTable] in
theorem hist_same {s t : State} (h : SamePlace s t) : hist t = hist s := by
  unfold hist nav_point
  rw [h.back, h.forward, h.kind, h.namespace_]

omit [TimestampText] [UppercaseTable] in
/-- The point that a turn comes to is a point of a stack. -/
theorem turn_known {s : State} (hp : Placed kinds s) {turn : Turn} {h : History NavPoint}
    (hturn : (hist s).turn turn = some h) : Known kinds h.here.gvk := by
  cases turn with
  | Back =>
    obtain ⟨prev, hprev, rfl⟩ := Option.map_eq_some_iff.mp hturn
    exact hp.back prev (List.mem_of_getLast? hprev)
  | Forward =>
    obtain ⟨next, hnext, rfl⟩ := Option.map_eq_some_iff.mp hturn
    exact hp.forward next (List.mem_of_getLast? hnext)

omit [TimestampText] [UppercaseTable] in
theorem hist_turned {s : State} {h : History NavPoint} (hknown : Known kinds h.here.gvk) :
    hist (s.turned kinds h) = h := by
  unfold hist nav_point State.turned
  rw [find_kind_gvk hknown]

/-- The kind is the one that the history finds for its target. -/
def Canonical (kinds : Kinds) (kind : Kind) : Prop := find_kind kinds kind.gvk = kind

omit [TimestampText] [UppercaseTable] in
theorem find_kind_canonical {gvk : kube.GroupVersionKind} (h : Known kinds gvk) :
    Canonical kinds (find_kind kinds gvk) := by
  unfold Canonical
  rw [find_kind_gvk h]

structure Turned (kinds : Kinds) (h : History NavPoint) (t : State) : Prop where
  free : Free t
  placed : Placed kinds t
  hist : hist t = h

theorem turn_step {cluster : Cluster} {turn : Turn} {s : State} {l : Loop} {h : History NavPoint}
    (hfree : Free s) (hp : Placed kinds s) (hturn : (hist s).turn turn = some h)
    (hkey : press std kinds cluster (Turn.key turn) s = .ok l) :
    Turned kinds h l.state ∧ Canonical kinds l.state.kind := by
  have hknown := turn_known hp hturn
  have hplaced : Placed kinds l.state := hp.effect (press_effect std kinds cluster hkey)
  rw [press_turn turn hfree, hturn] at hkey
  have hstill : Still (s.turned kinds h) l.state := still_rebuilt cluster hkey
  have hopen : Free (s.turned kinds h) := ⟨hfree.palette, hfree.jump, hfree.help⟩
  refine ⟨⟨hopen.still hstill, hplaced, ?_⟩, ?_⟩
  · rw [hist_same hstill.toSamePlace]
    exact hist_turned hknown
  · rw [hstill.kind]
    exact find_kind_canonical hknown

/-- A run of turns follows the history. After a turn the kind is canonical. -/
theorem turns_run {turns : List Turn} {s t : State} {h : History NavPoint} (hfree : Free s)
    (hp : Placed kinds s) (hpress : Presses std kinds (turns.map Turn.key) s t)
    (hturns : exec History.turn (hist s) turns = some h) :
    Turned kinds h t ∧ (turns = [] → t.kind = s.kind) ∧ (turns ≠ [] → Canonical kinds t.kind) := by
  induction turns generalizing s with
  | nil =>
    cases hturns
    cases hpress with
    | done hstill =>
      have hplace : SamePlace s t := hstill.toSamePlace
      refine ⟨⟨hfree.still hstill, hp.same hplace, hist_same hplace⟩, ?_, ?_⟩
      · exact fun _ => hstill.kind
      · exact fun hne => absurd rfl hne
  | cons turn turns ih =>
    cases hpress with
    | press cluster hstill hkey hrest =>
      obtain ⟨h₁, hturn, hturns⟩ := Option.bind_eq_some_iff.mp hturns
      rw [← hist_same hstill.toSamePlace] at hturn
      obtain ⟨hstep, hcanonical⟩ :=
        turn_step (hfree.still hstill) (hp.same hstill.toSamePlace) hturn hkey
      rw [← hstep.hist] at hturns
      obtain ⟨hrun, hnil, hcons⟩ := ih hstep.free hstep.placed hrest hturns
      refine ⟨hrun, nofun, fun _ => ?_⟩
      by_cases hturns' : turns = []
      · rw [hnil hturns']
        exact hcanonical
      · exact hcons hturns'

/-! ## There and back -/

/-- `[` so many times, and then `]` as many times. -/
def there_and_back_keys (k : Nat) : List Key :=
  List.replicate k (.Char '[' false) ++ List.replicate k (.Char ']' false)

omit [TimestampText] [UppercaseTable] in
theorem there_and_back_keys_eq (k : Nat) : there_and_back_keys k =
    (List.replicate k Turn.Back ++ List.replicate k Turn.Forward).map Turn.key := by
  simp [there_and_back_keys, List.map_append, List.map_replicate, Turn.key]

omit [TimestampText] [UppercaseTable] in
theorem same_place_of_hist {s t : State} (h : hist t = hist s) :
    SamePlace s t ↔ t.kind = s.kind := by
  obtain ⟨hback, hpoint, hforward⟩ := History.mk.inj h
  obtain ⟨-, hnamespace⟩ := NavPoint.mk.inj hpoint
  constructor
  · intro hsame
    exact hsame.kind
  · intro hkind
    exact ⟨hkind, hnamespace, hback, hforward⟩

theorem free_turned {k : Nat} {s t : State} (hfree : Free s) (hp : Placed kinds s)
    (hk : k ≤ s.back.length) (hpress : Presses std kinds (there_and_back_keys k) s t) :
    Turned kinds (hist s) t ∧ (t.kind = s.kind ↔ k = 0 ∨ Canonical kinds s.kind) := by
  rw [there_and_back_keys_eq] at hpress
  obtain ⟨hturned, hnil, hcons⟩ := turns_run hfree hp hpress (there_and_back (hist s) hk)
  refine ⟨hturned, ?_⟩
  rcases Nat.eq_zero_or_pos k with rfl | hpos
  · simp [hnil rfl]
  · have hcanonical : Canonical kinds t.kind := by
      apply hcons
      simp
      omega
    have hgvk : t.kind.gvk = s.kind.gvk :=
      congrArg NavPoint.gvk (History.mk.inj hturned.hist).2.1
    unfold Canonical at hcanonical ⊢
    rw [hgvk] at hcanonical
    rw [← hcanonical]
    constructor
    · exact Or.inr
    · rintro (hzero | hsame)
      · omega
      · exact hsame

/-! ## The other modes -/

/-- The palette or the jump takes the keys. -/
def Typing (s : State) : Prop := s.palette_query.isSome = true ∨ s.jump_query.isSome = true

omit [TimestampText] in
theorem jump_char_place (c : Char) (s : State) :
    SamePlace s (jump_char std c s) ∧ (Typing s → Typing (jump_char std c s)) := by
  rcases @jump_char_cases std _ c s with hsame | ⟨q, -, htyped⟩
  · rw [hsame]
    exact ⟨⟨rfl, rfl, rfl, rfl⟩, id⟩
  · rw [htyped]
    exact ⟨⟨rfl, rfl, rfl, rfl⟩, fun _ => Or.inr rfl⟩

theorem typing_press {cluster : Cluster} {c : Char} {s : State} {l : Loop} (hs : Typing s)
    (hc : c = '[' ∨ c = ']') (hkey : press std kinds cluster (.Char c false) s = .ok l) :
    SamePlace s l.state ∧ Typing l.state := by
  have htaken : (s.palette_query.isNone && s.jump_query.isNone) = false := by
    rcases hs with h | h
    · obtain ⟨q, hq⟩ := Option.isSome_iff_exists.mp h
      simp [hq]
    · obtain ⟨q, hq⟩ := Option.isSome_iff_exists.mp h
      simp [hq]
  simp only [press, htaken, Bool.and_false, Bool.false_eq_true, if_false] at hkey
  split at hkey
  · cases hkey
    exact ⟨⟨rfl, rfl, rfl, rfl⟩, hs⟩
  split at hkey
  · split at hkey
    · cases hkey
      exact ⟨⟨rfl, rfl, rfl, rfl⟩, Or.inl rfl⟩
    · cases hkey
      exact ⟨(jump_char_place c s).1, (jump_char_place c s).2 hs⟩
  · rename_i hclosed
    have hfree : s.jump_query.isNone = false := by simpa [hclosed] using htaken
    have htyped : char_key std kinds cluster c s = .ok ⟨jump_char std c s, .Top⟩ := by
      rcases hc with rfl | rfl <;> simp [char_key, hfree]
    rw [htyped] at hkey
    cases hkey
    exact ⟨(jump_char_place c s).1, (jump_char_place c s).2 hs⟩

theorem typing_turn {cluster : Cluster} {turn : Turn} {s : State} {l : Loop} (hs : Typing s)
    (hkey : press std kinds cluster (Turn.key turn) s = .ok l) :
    SamePlace s l.state ∧ Typing l.state := by
  cases turn with
  | Back => exact typing_press hs (Or.inl rfl) hkey
  | Forward => exact typing_press hs (Or.inr rfl) hkey

omit [TimestampText] [UppercaseTable] in
theorem Typing.still {s t : State} (hs : Typing s) (h : Still s t) : Typing t := by
  unfold Typing
  rw [h.palette, h.jump]
  exact hs

omit [TimestampText] [UppercaseTable] in
theorem SamePlace.trans {s t u : State} (h : SamePlace s t) (h' : SamePlace t u) : SamePlace s u :=
  ⟨h'.kind.trans h.kind, h'.namespace_.trans h.namespace_, h'.back.trans h.back,
    h'.forward.trans h.forward⟩

/-- Typed keys leave the view where it is. -/
theorem typing_run {turns : List Turn} {s t : State} (hs : Typing s)
    (hpress : Presses std kinds (turns.map Turn.key) s t) : SamePlace s t := by
  induction turns generalizing s with
  | nil =>
    cases hpress with
    | done hstill => exact hstill.toSamePlace
  | cons turn turns ih =>
    cases hpress with
    | press cluster hstill hkey hrest =>
      obtain ⟨hplace, htyping⟩ := typing_turn (hs.still hstill) hkey
      exact hstill.toSamePlace.trans (hplace.trans (ih htyping hrest))

theorem presses_append {keys keys' : List Key} {s t : State}
    (h : Presses std kinds (keys ++ keys') s t) :
    ∃ u, Presses std kinds keys s u ∧ Presses std kinds keys' u t := by
  induction keys generalizing s with
  | nil => exact ⟨s, .done (.refl s), h⟩
  | cons key keys ih =>
    cases h with
    | press cluster hstill hkey hrest =>
      obtain ⟨u, hkeys, hkeys'⟩ := ih hrest
      exact ⟨u, .press cluster hstill hkey hkeys, hkeys'⟩

theorem help_turn {cluster : Cluster} (turn : Turn) {s : State} (hhelp : s.help = true) :
    press std kinds cluster (Turn.key turn) s = .ok ⟨{ s with help := false }, .Top⟩ := by
  cases turn <;> simp [Turn.key, press, hhelp]

/-- One turn forward too many. -/
theorem no_turn_forward {s t : State} (hfree : Free s) (hforward : s.forward = [])
    (hpress : Presses std kinds [Turn.key .Forward] s t) : SamePlace s t := by
  cases hpress with
  | press cluster hstill hkey hrest =>
    cases hrest with
    | done hstill' =>
      rw [press_turn _ (hfree.still hstill)] at hkey
      simp only [hist, History.turn, hstill.forward, hforward, List.getLast?_nil, Option.map_none,
        Option.elim_none] at hkey
      cases hkey
      exact hstill.toSamePlace.trans hstill'.toSamePlace

theorem turn_forward_moves {s t : State} (hfree : Free s) (hp : Placed kinds s)
    (hforward : s.forward ≠ []) (hpress : Presses std kinds [Turn.key .Forward] s t) :
    t.back ≠ s.back := by
  have hturn : exec History.turn (hist s) [.Forward] = some
      { back := s.back ++ [nav_point s]
        here := s.forward.getLast hforward
        forward := s.forward.dropLast } := by
    simp [exec, hist, History.turn, List.getLast?_eq_some_getLast hforward]
  obtain ⟨hturned, -⟩ := turns_run hfree hp hpress hturn
  have hback : t.back = s.back ++ [nav_point s] := congrArg History.back hturned.hist
  intro hsame
  rw [hback] at hsame
  have hlength := congrArg List.length hsame
  simp at hlength

/-! ## Every mode -/

/-- The modes and kinds for which the turns lead back. The help takes the first key. -/
def Returns (kinds : Kinds) (k : Nat) (s : State) : Prop :=
  k = 0 ∨ Typing s ∨ s.help = false ∧ Canonical kinds s.kind ∨
    s.help = true ∧ s.forward = [] ∧ (k = 1 ∨ Canonical kinds s.kind)

theorem help_restored_iff {k : Nat} {s t : State} (htyping : ¬ Typing s) (hhelp : s.help = true)
    (hp : Placed kinds s) (hk : k + 1 ≤ s.back.length)
    (hpress : Presses std kinds (there_and_back_keys (k + 1)) s t) :
    SamePlace s t ↔ s.forward = [] ∧ (k = 0 ∨ Canonical kinds s.kind) := by
  have hkeys : there_and_back_keys (k + 1) =
      Turn.key .Back :: (there_and_back_keys k ++ [Turn.key .Forward]) := by
    unfold there_and_back_keys
    rw [List.replicate_succ, List.replicate_succ', List.cons_append, List.append_assoc]
    rfl
  rw [hkeys] at hpress
  cases hpress with
  | press cluster hstill hkey hrest =>
    rename_i u l
    rw [help_turn _ (hstill.help.trans hhelp)] at hkey
    cases hkey
    have hplace : SamePlace s { u with help := false } :=
      ⟨hstill.kind, hstill.namespace_, hstill.back, hstill.forward⟩
    obtain ⟨v, hthere, hlast⟩ := presses_append hrest
    have hfree : Free { u with help := false } := by
      obtain ⟨hpalette, hjump⟩ := not_or.mp htyping
      refine ⟨?_, ?_, rfl⟩
      · rw [← Option.not_isSome_iff_eq_none]
        exact hstill.palette ▸ hpalette
      · rw [← Option.not_isSome_iff_eq_none]
        exact hstill.jump ▸ hjump
    obtain ⟨hturned, hkind⟩ := free_turned hfree (hp.same hplace)
      (by rw [hplace.back]; omega) hthere
    have hkind' : v.kind = s.kind ↔ k = 0 ∨ Canonical kinds s.kind := by
      rw [← hplace.kind]
      exact hkind
    have hhist : hist v = hist s := hturned.hist.trans (hist_same hplace)
    obtain ⟨hback, -, hforward⟩ := History.mk.inj hhist
    constructor
    · intro hsame
      have hend : v.forward = [] := by
        by_contra hne
        exact turn_forward_moves hturned.free hturned.placed hne hlast (hsame.back.trans hback.symm)
      have hstay : SamePlace v t := no_turn_forward hturned.free hend hlast
      exact ⟨hforward.symm.trans hend, hkind'.mp (hstay.kind.symm.trans hsame.kind)⟩
    · rintro ⟨hend, hcanonical⟩
      have hstay : SamePlace v t := no_turn_forward hturned.free (hforward.trans hend) hlast
      exact ((same_place_of_hist hhist).mpr (hkind'.mpr hcanonical)).trans hstay

/-- As many turns forward as back lead back to the view, its kind and its history
exactly where the kind is the one that its target finds. -/
theorem history_restored_iff {cluster : Cluster} {l₀ l l' : Loop} {before events : List Event}
    {k : Nat} (hl : start kinds cluster = .ok l₀)
    (hbefore : exec (Loop.step std kinds) l₀ before = some l) (hk : k ≤ l.state.back.length)
    (hkeys : events.filterMap Event.key = there_and_back_keys k)
    (hrun : exec (Loop.step std kinds) l events = some l') :
    SamePlace l.state l'.state ↔ Returns kinds k l.state := by
  have hp : Placed kinds l.state := reachable_placed hl hbefore
  have hpress := presses_of_exec hrun
  rw [hkeys] at hpress
  unfold Returns
  by_cases htyping : Typing l.state
  · rw [there_and_back_keys_eq] at hpress
    simp [htyping, typing_run htyping hpress]
  cases hhelp : l.state.help with
  | false =>
    have hfree : Free l.state := by
      obtain ⟨hpalette, hjump⟩ := not_or.mp htyping
      exact ⟨Option.not_isSome_iff_eq_none.mp hpalette, Option.not_isSome_iff_eq_none.mp hjump,
        hhelp⟩
    obtain ⟨hturned, hkind⟩ := free_turned hfree hp hk hpress
    rw [same_place_of_hist hturned.hist, hkind]
    simp [htyping]
  | true =>
    cases k with
    | zero =>
      rw [there_and_back_keys_eq] at hpress
      cases hpress with
      | done hstill => simp [hstill.toSamePlace]
    | succ k =>
      rw [help_restored_iff htyping hhelp hp hk hpress]
      simp [htyping]

end

/-! ## A lens over the pods -/

/-- What the loop does up to its next wait, once a view is opened. -/
def view_frame : List Event :=
  [.Advance empty_cluster, .Advance empty_cluster, .Advance empty_cluster, .Draw 20]

/-- Keys that each open a view. -/
def views (keys : List Key) : List Event :=
  keys.flatMap fun key => .Press empty_cluster key :: view_frame

theorem deployments_are_restored :
    ∃ l₀ l l', start (all_kinds []) empty_cluster = .ok l₀ ∧
      exec (@Loop.step mergeSort plain_timestamps ascii_uppercase (all_kinds [])) l₀
        (view_frame ++ views [.Tab]) = some l ∧
      exec (@Loop.step mergeSort plain_timestamps ascii_uppercase (all_kinds [])) l
        (views (there_and_back_keys 1)) = some l' ∧
      l.state.kind.label = "Deployments" ∧ SamePlace l.state l'.state := by
  refine ⟨_, _, _, rfl, rfl, rfl, rfl, ?_⟩
  apply (@history_restored_iff mergeSort plain_timestamps ascii_uppercase (all_kinds [])
    empty_cluster _ _ _ (view_frame ++ views [.Tab]) (views (there_and_back_keys 1)) 1 rfl rfl
    (Nat.le_refl 1) rfl rfl).mpr
  exact Or.inr (Or.inr (Or.inl ⟨rfl, rfl⟩))

def pod_lens : Kind := .from_lens {
  id := "com.example.pods"
  api_version := 1
  target := { group := "", version := "v1", kind := "Pod" }
  columns := []
  status := []
  conditions := []
  health := []
  actions := [] }

/-- Five times `Tab` comes to the lens. `[` and `]` leave it for the built-in pods. -/
theorem the_lens_of_the_pods_is_lost :
    ∃ l₀ l l', start (all_kinds [pod_lens]) empty_cluster = .ok l₀ ∧
      exec (@Loop.step mergeSort plain_timestamps ascii_uppercase (all_kinds [pod_lens])) l₀
        (view_frame ++ views (List.replicate 5 .Tab)) = some l ∧
      exec (@Loop.step mergeSort plain_timestamps ascii_uppercase (all_kinds [pod_lens])) l
        (views (there_and_back_keys 1)) = some l' ∧
      1 ≤ l.state.back.length ∧ l.state.kind = pod_lens ∧
      l'.state.kind = .builtin "Pods" "" "v1" "Pod" false ∧ ¬ SamePlace l.state l'.state := by
  refine ⟨_, _, _, rfl, rfl, rfl, ?_, rfl, rfl, ?_⟩
  · decide
  · intro h
    exact absurd (congrArg Kind.label h.kind) (by decide)

end kaptein_tui
