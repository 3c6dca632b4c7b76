-- One subscriber beside any number of writers. A writer changes the state
-- under one lock and sends its patch under another; a subscriber reads the
-- history under the first and adds its sender under the second. Between the two
-- locks of one call, every other call may run.
import Kaptein.Subscribe
import Mathlib.Data.List.Perm.Basic

open runs kaptein_viewmodel.mem_plane

namespace kaptein_viewmodel.subscribe_race

/-- How far the call of `subscribe` came. -/
inductive Phase where
  | NotStarted
  | Replayed
  | Attached
  deriving DecidableEq

/-- The plane, the entries of the writers that are between their two locks, and
the history that the subscriber read. The last three fields are a record of the
run: all entries, the revision at the read, and the entries behind the stream. -/
structure System where
  plane : MemPlane
  writers : List HistoryEntry
  phase : Phase
  history : List RowPatch
  log : List HistoryEntry
  read : Revision
  received : List HistoryEntry

inductive Action where
  | Write (w : Write)
  | Broadcast (i : Nat)
  | ReadHistory
  | Attach
  deriving DecidableEq

def start (column_ids : List String) : System where
  plane := MemPlane.new column_ids
  writers := []
  phase := .NotStarted
  history := []
  log := []
  read := 0
  received := []

/-- One critical section of a writer or of `subscribe(from)`. -/
def step (from_ : Revision) (s : System) : Action → Option System
  | .Write w =>
    let (plane, entry) := s.plane.write_state w
    some { s with
      plane
      writers := s.writers ++ entry.toList
      log := s.log ++ entry.toList }
  | .Broadcast i =>
    match s.writers[i]? with
    | some entry =>
      some { s with
        plane := s.plane.broadcast entry.patch
        writers := s.writers.eraseIdx i
        received := if s.phase = .Attached then s.received ++ [entry] else s.received }
    | none => none
  | .ReadHistory =>
    match s.phase with
    | .NotStarted =>
      some { s with
        phase := .Replayed
        history := s.plane.replay from_
        read := s.plane.revision
        received := s.plane.state.history.filter fun e => e.revision > from_ }
    | _ => none
  | .Attach =>
    match s.phase with
    | .Replayed => some { s with plane := s.plane.attach, phase := .Attached }
    | _ => none

theorem step_write (from_ : Revision) (s : System) (w : Write) :
    step from_ s (.Write w) = some { s with
      plane := (s.plane.write_state w).1
      writers := s.writers ++ (s.plane.write_state w).2.toList
      log := s.log ++ (s.plane.write_state w).2.toList } := rfl

theorem step_broadcast {from_ : Revision} {s t : System} {i : Nat}
    (h : step from_ s (.Broadcast i) = some t) :
    ∃ entry, s.writers[i]? = some entry ∧ t = { s with
      plane := s.plane.broadcast entry.patch
      writers := s.writers.eraseIdx i
      received := if s.phase = .Attached then s.received ++ [entry] else s.received } := by
  simp only [step] at h
  split at h
  · rename_i entry hentry
    exact ⟨entry, hentry, (Option.some.inj h).symm⟩
  · cases h

theorem step_readHistory {from_ : Revision} {s t : System}
    (h : step from_ s .ReadHistory = some t) :
    s.phase = .NotStarted ∧ t = { s with
      phase := .Replayed
      history := s.plane.replay from_
      read := s.plane.revision
      received := s.plane.state.history.filter fun e => e.revision > from_ } := by
  simp only [step] at h
  split at h
  · rename_i hp
    exact ⟨hp, (Option.some.inj h).symm⟩
  · cases h

theorem step_attach {from_ : Revision} {s t : System} (h : step from_ s .Attach = some t) :
    s.phase = .Replayed ∧ t = { s with plane := s.plane.attach, phase := .Attached } := by
  simp only [step] at h
  split at h
  · rename_i hp
    exact ⟨hp, (Option.some.inj h).symm⟩
  · cases h

/-- What the subscriber reads: the history, then what its sender got. -/
def System.stream (s : System) : List RowPatch :=
  s.history ++ s.plane.live.flatMap Sender.sent

/-! ## Logs with their revisions -/

theorem numbered_mem {n : Nat} {log : List HistoryEntry} (h : Numbered n log)
    {e : HistoryEntry} (he : e ∈ log) : n < e.revision ∧ e.revision ≤ n + log.length := by
  obtain ⟨i, hi⟩ := List.mem_iff_getElem?.mp he
  have hlt := (List.getElem?_eq_some_iff.mp hi).1
  rw [numbered_revision n i log e h hi]
  constructor
  · exact Nat.lt_succ_of_le (Nat.le_add_right n i)
  · exact Nat.add_le_add_left hlt n

theorem numbered_pairwise {n : Nat} {log : List HistoryEntry} (h : Numbered n log) :
    log.Pairwise fun a b => a.revision < b.revision := by
  induction log generalizing n with
  | nil => exact List.Pairwise.nil
  | cons e log ih =>
    refine List.Pairwise.cons ?_ (ih h.2)
    intro b hb
    rw [h.1]
    exact (numbered_mem h.2 hb).1

theorem pairwise_nodup {log : List HistoryEntry}
    (h : log.Pairwise fun a b => a.revision < b.revision) : log.Nodup := by
  refine h.imp ?_
  rintro a b hlt rfl
  exact Nat.lt_irrefl _ hlt

theorem mem_drop {log : List HistoryEntry} (h : Numbered 0 log) (r : Nat) (e : HistoryEntry) :
    e ∈ log.drop r ↔ e ∈ log ∧ r < e.revision := by
  have hf := numbered_filter 0 r log h
  rw [Nat.sub_zero] at hf
  rw [← hf]
  simp

theorem numbered_take {n : Nat} {log : List HistoryEntry} (h : Numbered n log) (r : Nat) :
    Numbered n (log.take r) := by
  rw [← List.take_append_drop r log, numbered_append] at h
  exact h.1

theorem mem_take {log : List HistoryEntry} (h : Numbered 0 log) (r : Nat) (e : HistoryEntry) :
    e ∈ log.take r ↔ e ∈ log ∧ e.revision ≤ r := by
  constructor
  · intro he
    have hlast := (numbered_mem (numbered_take h r) he).2
    rw [List.length_take, Nat.zero_add] at hlast
    exact ⟨List.mem_of_mem_take he, Nat.le_trans hlast (Nat.min_le_left _ _)⟩
  · rintro ⟨he, hle⟩
    rw [← List.take_append_drop r log, List.mem_append, mem_drop h] at he
    rcases he with he | ⟨_, hlt⟩
    · exact he
    · exact absurd hle (Nat.not_le_of_lt hlt)

/-- Two parts of one log with the same entries are the same. -/
theorem same_entries {a b : List HistoryEntry}
    (ha : a.Pairwise fun x y => x.revision < y.revision)
    (hb : b.Pairwise fun x y => x.revision < y.revision) (h : ∀ e, e ∈ a ↔ e ∈ b) : a = b := by
  have hperm : a.Perm b :=
    (List.perm_ext_iff_of_nodup (pairwise_nodup ha) (pairwise_nodup hb)).mpr h
  refine hperm.eq_of_pairwise ?_ ha hb
  intro x y _ _ hxy hyx
  exact absurd hxy (Nat.lt_asymm hyx)

/-! ## What holds in every state -/

/-- The record of the run is true: the plane follows the log, the writers hold
entries of it, and the stream is the received entries. -/
structure Recorded (s : System) : Prop where
  follows : Follows s.plane s.log
  cap : s.plane.history_cap = 1024
  writers : s.writers.Sublist s.log
  stream : s.stream = s.received.map HistoryEntry.patch
  live : match s.phase with
    | .Attached => ∃ tx, s.plane.live = [tx] ∧ tx.is_closed = false
    | _ => s.plane.live = []

theorem recorded_start (column_ids : List String) : Recorded (start column_ids) where
  follows := follows_new column_ids
  cap := rfl
  writers := List.Sublist.slnil
  stream := rfl
  live := rfl

theorem write_state_live (p : MemPlane) (w : Write) :
    (p.write_state w).1.live = p.live ∧ (p.write_state w).1.history_cap = p.history_cap := by
  cases w with
  | upsert row => exact ⟨rfl, rfl⟩
  | remove id =>
    simp only [MemPlane.write_state, MemPlane.remove_state]
    cases p.state.remove id <;> exact ⟨rfl, rfl⟩

theorem recorded_step {from_ : Revision} {s t : System} {a : Action} (h : Recorded s)
    (ht : step from_ s a = some t) : Recorded t := by
  have hlive := h.live
  have hstream := h.stream
  unfold System.stream at hstream
  cases a with
  | Write w =>
    rw [step_write] at ht
    cases ht
    obtain ⟨hl, hc⟩ := write_state_live s.plane w
    refine ⟨h.follows.write_state w, hc.trans h.cap, h.writers.append (List.Sublist.refl _), ?_, ?_⟩
    · unfold System.stream
      rw [hl]
      exact hstream
    · rw [hl]
      exact hlive
  | Broadcast i =>
    obtain ⟨entry, hentry, rfl⟩ := step_broadcast ht
    refine ⟨h.follows.broadcast _, h.cap, (List.eraseIdx_sublist _ _).trans h.writers, ?_, ?_⟩
    · unfold System.stream
      cases hp : s.phase with
      | NotStarted | Replayed =>
        rw [hp] at hlive
        rw [hlive] at hstream
        simpa [MemPlane.broadcast, hlive] using hstream
      | Attached =>
        rw [hp] at hlive
        obtain ⟨tx, htx, hopen⟩ := hlive
        rw [htx] at hstream
        simp only [List.flatMap_cons, List.flatMap_nil, List.append_nil] at hstream
        simp [MemPlane.broadcast, htx, hopen, Sender.unbounded_send, ← hstream]
    · cases hp : s.phase with
      | NotStarted | Replayed =>
        rw [hp] at hlive
        simp [MemPlane.broadcast, show s.plane.live = [] from hlive]
      | Attached =>
        rw [hp] at hlive
        obtain ⟨tx, htx, hopen⟩ := hlive
        exact ⟨tx.unbounded_send entry.patch, by simp [MemPlane.broadcast, htx, hopen], hopen⟩
  | ReadHistory =>
    obtain ⟨hp, rfl⟩ := step_readHistory ht
    rw [hp] at hlive
    refine ⟨h.follows, h.cap, h.writers, ?_, hlive⟩
    unfold System.stream
    rw [hlive]
    simp [MemPlane.replay]
  | Attach =>
    obtain ⟨hp, rfl⟩ := step_attach ht
    rw [hp] at hlive
    refine ⟨h.follows.attach, h.cap, h.writers, ?_, ⟨_, by rw [MemPlane.attach, hlive]; rfl, rfl⟩⟩
    unfold System.stream
    rw [hlive] at hstream
    simpa [MemPlane.attach, hlive] using hstream

theorem recorded_run {from_ : Revision} {s t : System} {as : List Action} (h : Recorded s)
    (ht : exec (step from_) s as = some t) : Recorded t := by
  induction as generalizing s with
  | nil =>
    cases ht
    exact h
  | cons a as ih =>
    rw [exec_cons] at ht
    obtain ⟨u, hu, htu⟩ := Option.bind_eq_some_iff.mp ht
    exact ih (recorded_step h hu) htu

/-! ## The interleavings that lose, repeat or reorder nothing -/

/-- A section that does not disturb the stream:
- the sender is attached when the writers between their locks are those of the
  patches after the replay, so that no patch since then was sent before it, and
  none of the replay is sent again;
- after that the writers send in the order of their revisions;
- and a subscriber of a future revision gets no patch before that revision. -/
def Undisturbed (from_ : Revision) (s : System) : Action → Prop
  | .Write w => s.phase = .Attached → patch_of s.plane.row_map w ≠ none → from_ ≤ s.plane.revision
  | .Broadcast i => s.phase = .Attached → i = 0
  | .ReadHistory => True
  | .Attach => s.writers = s.log.filter fun e => e.revision > max from_ s.read

/-- What the subscriber has, and what is on its way to it. -/
def OnTheWay (from_ : Revision) (s : System) : Prop :=
  match s.phase with
  | .NotStarted => True
  | .Replayed => s.read ≤ s.log.length ∧ s.received = (s.log.take s.read).drop from_
  | .Attached =>
    s.read ≤ s.log.length ∧ ∃ delivered,
      s.received = (s.log.take s.read).drop from_ ++ delivered ∧
        delivered ++ s.writers = s.log.drop (max from_ s.read)

theorem log_filter {s : System} (h : Recorded s) (r : Revision) :
    (s.log.filter fun e => e.revision > r) = s.log.drop r :=
  numbered_filter 0 r s.log h.follows.numbered

theorem log_grows {from_ : Revision} {s t : System} {a : Action}
    (ht : step from_ s a = some t) : s.log <+: t.log := by
  cases a with
  | Write w =>
    rw [step_write] at ht
    cases ht
    exact List.prefix_append _ _
  | Broadcast i =>
    obtain ⟨entry, _, rfl⟩ := step_broadcast ht
    exact List.prefix_rfl
  | ReadHistory =>
    obtain ⟨_, rfl⟩ := step_readHistory ht
    exact List.prefix_rfl
  | Attach =>
    obtain ⟨_, rfl⟩ := step_attach ht
    exact List.prefix_rfl

theorem log_grows_run {from_ : Revision} {s t : System} {as : List Action}
    (ht : exec (step from_) s as = some t) : s.log <+: t.log := by
  induction as generalizing s with
  | nil =>
    cases ht
    exact List.prefix_rfl
  | cons a as ih =>
    rw [exec_cons] at ht
    obtain ⟨u, hu, htu⟩ := Option.bind_eq_some_iff.mp ht
    exact (log_grows hu).trans (ih htu)

theorem write_entry (s : System) (w : Write) :
    (s.plane.write_state w).2 = none ↔ patch_of s.plane.row_map w = none := by
  rw [← write_state_entry]
  simp

/-- A section that does not disturb the stream keeps the patches on their way. -/
theorem onTheWay_step {from_ : Revision} {s t : System} {a : Action} (hr : Recorded s)
    (h : OnTheWay from_ s) (hg : Undisturbed from_ s a) (ht : step from_ s a = some t)
    (hfew : t.log.length < 1024) : OnTheWay from_ t := by
  unfold OnTheWay at h ⊢
  cases a with
  | Write w =>
    rw [step_write] at ht
    cases ht
    generalize hentry : (s.plane.write_state w).2 = entry
    cases hp : s.phase with
    | NotStarted => simp
    | Replayed =>
      rw [hp] at h
      obtain ⟨hread, hrec⟩ := h
      simp only [List.length_append]
      refine ⟨Nat.le_add_right_of_le hread, ?_⟩
      rw [List.take_append_of_le_length hread]
      exact hrec
    | Attached =>
      rw [hp] at h
      obtain ⟨hread, delivered, hrec, hway⟩ := h
      simp only [List.length_append]
      refine ⟨Nat.le_add_right_of_le hread, delivered, ?_, ?_⟩
      · rw [List.take_append_of_le_length hread]
        exact hrec
      · cases entry with
        | none => simpa using hway
        | some entry =>
          have hpatch : patch_of s.plane.row_map w ≠ none := by
            intro hn
            rw [(write_entry s w).mpr hn] at hentry
            cases hentry
          have hfrom := hg hp hpatch
          rw [hr.follows.revision] at hfrom
          rw [← List.append_assoc, hway,
            List.drop_append_of_le_length (Nat.max_le.mpr ⟨hfrom, hread⟩)]
  | Broadcast i =>
    obtain ⟨entry, hentry, rfl⟩ := step_broadcast ht
    cases hp : s.phase with
    | NotStarted => simp
    | Replayed =>
      rw [hp] at h
      simpa [hp] using h
    | Attached =>
      rw [hp] at h
      obtain ⟨hread, delivered, hrec, hway⟩ := h
      have hi := hg hp
      subst hi
      obtain ⟨rest, hrest⟩ : ∃ rest, s.writers = entry :: rest := by
        cases hw : s.writers with
        | nil => simp [hw] at hentry
        | cons e rest =>
          rw [hw] at hentry
          cases hentry
          exact ⟨rest, rfl⟩
      simp only [if_true]
      refine ⟨hread, delivered ++ [entry], ?_, ?_⟩
      · rw [hrec, List.append_assoc]
      · rw [hrest] at hway ⊢
        simpa using hway
  | ReadHistory =>
    obtain ⟨hp, rfl⟩ := step_readHistory ht
    have hlen : s.log.length - s.plane.history_cap = 0 := by
      rw [hr.cap]
      exact Nat.sub_eq_zero_of_le (Nat.le_of_lt hfew)
    have hrev := hr.follows.revision
    refine ⟨Nat.le_of_eq hrev, ?_⟩
    simp only [hr.follows.history, hlen, List.drop_zero]
    rw [log_filter hr, hrev, List.take_length]
  | Attach =>
    obtain ⟨hp, rfl⟩ := step_attach ht
    rw [hp] at h
    obtain ⟨hread, hrec⟩ := h
    refine ⟨hread, [], ?_, ?_⟩
    · rw [List.append_nil]
      exact hrec
    · have hw : s.writers = _ := hg
      rw [List.nil_append]
      exact hw.trans (log_filter hr _)

/-- The replay and what follows it are the rest of the log. -/
theorem replay_then_rest (log : List HistoryEntry) (from_ read : Nat) :
    (log.take read).drop from_ ++ log.drop (max from_ read) = log.drop from_ := by
  by_cases h : from_ ≤ read
  · rw [Nat.max_eq_right h]
    calc
      (log.take read).drop from_ ++ log.drop read
          = (log.drop from_).take (read - from_) ++ (log.drop from_).drop (read - from_) := by
        rw [List.drop_take, List.drop_drop, Nat.add_sub_cancel' h]
      _ = log.drop from_ := List.take_append_drop _ _
  · rw [Nat.max_eq_left (by omega), List.drop_eq_nil_of_le (by simp; omega), List.nil_append]

/-! ## A disturbed stream stays disturbed -/

/-- From the moment the sender is attached, each entry that a writer holds or
makes goes to the subscriber or is still with its writer. -/
theorem attached_step {from_ : Revision} {s t : System} {a : Action} (hp : s.phase = .Attached)
    (ht : step from_ s a = some t) :
    t.phase = .Attached ∧ s.received <+: t.received ∧ ∃ more, t.log = s.log ++ more ∧
      (t.received ++ t.writers).Perm (s.received ++ s.writers ++ more) := by
  cases a with
  | Write w =>
    rw [step_write] at ht
    cases ht
    refine ⟨hp, List.prefix_rfl, (s.plane.write_state w).2.toList, rfl, ?_⟩
    rw [List.append_assoc]
  | Broadcast i =>
    obtain ⟨entry, hentry, rfl⟩ := step_broadcast ht
    obtain ⟨hi, he⟩ := List.getElem?_eq_some_iff.mp hentry
    have hperm := List.getElem_cons_eraseIdx_perm hi
    rw [he] at hperm
    refine ⟨hp, ?_, [], (List.append_nil _).symm, ?_⟩
    · simp [hp]
    · simp only [hp, if_true, List.append_nil, List.append_assoc]
      exact List.Perm.append_left _ hperm
  | ReadHistory =>
    obtain ⟨hn, _⟩ := step_readHistory ht
    rw [hp] at hn
    cases hn
  | Attach =>
    obtain ⟨hn, _⟩ := step_attach ht
    rw [hp] at hn
    cases hn

theorem attached_run {from_ : Revision} {s t : System} {as : List Action}
    (hp : s.phase = .Attached) (ht : exec (step from_) s as = some t) :
    s.received <+: t.received ∧ ∃ more, t.log = s.log ++ more ∧
      (t.received ++ t.writers).Perm (s.received ++ s.writers ++ more) := by
  induction as generalizing s with
  | nil =>
    cases ht
    exact ⟨List.prefix_rfl, [], (List.append_nil _).symm, by rw [List.append_nil]⟩
  | cons a as ih =>
    rw [exec_cons] at ht
    obtain ⟨u, hu, htu⟩ := Option.bind_eq_some_iff.mp ht
    obtain ⟨hup, hpre, more, hlog, hperm⟩ := attached_step hp hu
    obtain ⟨hpre', more', hlog', hperm'⟩ := ih hup htu
    refine ⟨hpre.trans hpre', more ++ more', ?_, ?_⟩
    · rw [hlog', hlog, List.append_assoc]
    · rw [← List.append_assoc]
      exact hperm'.trans (hperm.append_right _)

section Complete

variable {from_ : Revision} {s u t : System} {as : List Action}

/-- What the subscriber of an attached sender gets until no writer is left. -/
theorem complete_run (hp : u.phase = .Attached) (htu : exec (step from_) u as = some t)
    (hdone : t.writers = []) (hall : t.received = t.log.drop from_) :
    u.received <+: t.log.drop from_ ∧ ∃ more, t.log = u.log ++ more ∧
      (t.log.drop from_).Perm (u.received ++ u.writers ++ more) := by
  obtain ⟨hpre, more, hlog, hperm⟩ := attached_run hp htu
  rw [hdone, List.append_nil, hall] at hperm
  rw [hall] at hpre
  exact ⟨hpre, more, hlog, hperm⟩

/-- A patch before `from` is one patch too many. -/
theorem patch_is_new {w : Write} (hp : s.phase = .Attached)
    (hu : step from_ s (.Write w) = some u) (htu : exec (step from_) u as = some t)
    (hdone : t.writers = []) (hall : t.received = t.log.drop from_)
    (hpatch : patch_of s.plane.row_map w ≠ none) : from_ ≤ s.log.length := by
  obtain ⟨_, more, hlog, hperm⟩ := complete_run (attached_step hp hu).1 htu hdone hall
  rw [step_write] at hu
  cases hu
  obtain ⟨entry, hentry⟩ := Option.ne_none_iff_exists'.mp (mt (write_entry s w).mp hpatch)
  have hlen := hperm.length_eq
  rw [hlog] at hlen
  simp only [hentry, Option.toList_some, List.length_drop, List.length_append,
    List.length_singleton] at hlen
  have hcount : ∀ l m r k n : Nat, l + 1 + m - n = r + (k + 1) + m → n ≤ l := by
    intro l m r k n hcount
    omega
  exact hcount _ _ _ _ _ hlen

/-- A writer that sends before an older one breaks the order. -/
theorem oldest_sends_first {i : Nat} (hr : Recorded s) (hp : s.phase = .Attached)
    (hu : step from_ s (.Broadcast i) = some u) (htu : exec (step from_) u as = some t)
    (hrt : Recorded t) (hdone : t.writers = []) (hall : t.received = t.log.drop from_) :
    i = 0 := by
  have hup := (attached_step hp hu).1
  obtain ⟨hpre, more, _, hperm⟩ := complete_run hup htu hdone hall
  have hsorted := (numbered_pairwise hrt.follows.numbered).sublist (List.drop_sublist from_ _)
  have hnodup := hperm.nodup_iff.mp (pairwise_nodup hsorted)
  obtain ⟨entry, hentry, rfl⟩ := step_broadcast hu
  obtain ⟨later, hlater⟩ := hpre
  simp only [hp, if_true] at hlater hperm hnodup
  have hws := (numbered_pairwise hr.follows.numbered).sublist hr.writers
  cases i with
  | zero => rfl
  | succ i =>
    cases hw : s.writers with
    | nil => simp [hw] at hentry
    | cons oldest rest =>
      rw [hw] at hentry hperm hws hnodup
      rw [List.getElem?_cons_succ] at hentry
      rw [List.eraseIdx_cons_succ] at hperm hnodup
      have hlt : oldest.revision < entry.revision :=
        List.rel_of_pairwise_cons hws (List.mem_of_getElem? hentry)
      have hmem : oldest ∈ t.log.drop from_ := by
        rw [hperm.mem_iff]
        simp
      have hnot : oldest ∉ s.received ++ [entry] := by
        intro hin
        have hdis := (List.nodup_append.mp (List.nodup_append.mp hnodup).1).2.2
        exact hdis oldest hin oldest (List.mem_cons_self) rfl
      rw [← hlater] at hmem hsorted
      rcases List.mem_append.mp hmem with hin | hin
      · exact absurd hin hnot
      · have hgt := (List.pairwise_append.mp hsorted).2.2 entry (by simp) oldest hin
        exact absurd hlt (Nat.lt_asymm hgt)

/-- At the attachment the writers hold what the replay has not. -/
theorem writers_hold_the_rest (hr : Recorded s) (h : OnTheWay from_ s)
    (hu : step from_ s .Attach = some u) (htu : exec (step from_) u as = some t)
    (hrt : Recorded t) (hdone : t.writers = []) (hall : t.received = t.log.drop from_) :
    s.writers = s.log.filter fun e => e.revision > max from_ s.read := by
  obtain ⟨hp, rfl⟩ := step_attach hu
  unfold OnTheWay at h
  rw [hp] at h
  obtain ⟨hread, hrec⟩ := h
  obtain ⟨_, more, hlog, hperm⟩ := complete_run rfl htu hdone hall
  have hsorted := numbered_pairwise hr.follows.numbered
  have hnodup := hperm.nodup_iff.mp
    ((pairwise_nodup (numbered_pairwise hrt.follows.numbered)).sublist (List.drop_sublist _ _))
  refine same_entries (hsorted.sublist hr.writers) (hsorted.sublist List.filter_sublist) ?_
  intro e
  have hnew : e ∈ s.log → e ∉ more := by
    intro he hm
    have hd := pairwise_nodup (numbered_pairwise hrt.follows.numbered)
    rw [hlog] at hd
    exact (List.nodup_append.mp hd).2.2 e he e hm rfl
  have hreplayed : e ∈ s.log → (e ∈ s.received ↔ e.revision ≤ s.read ∧ from_ < e.revision) := by
    intro he
    rw [hrec, mem_drop (numbered_take hr.follows.numbered _), mem_take hr.follows.numbered]
    simp [he]
  have htotal : e ∈ s.log → (from_ < e.revision ↔ e ∈ s.received ∨ e ∈ s.writers) := by
    intro he
    have het : e ∈ t.log := by
      rw [hlog]
      exact List.mem_append_left _ he
    have hmem := hperm.mem_iff (a := e)
    rw [mem_drop hrt.follows.numbered, List.mem_append, List.mem_append] at hmem
    simpa [het, hnew he] using hmem
  have hapart : e ∈ s.received → e ∉ s.writers := by
    intro h1 h2
    exact (List.nodup_append.mp (List.nodup_append.mp hnodup).1).2.2 e h1 e h2 rfl
  simp only [List.mem_filter, gt_iff_lt, decide_eq_true_eq, Nat.max_lt]
  constructor
  · intro hw
    have he := hr.writers.subset hw
    have hfrom := (htotal he).mpr (Or.inr hw)
    refine ⟨he, hfrom, ?_⟩
    by_contra hle
    exact hapart ((hreplayed he).mpr ⟨Nat.le_of_not_lt hle, hfrom⟩) hw
  · rintro ⟨he, hfrom, hlate⟩
    rcases (htotal he).mp hfrom with hin | hin
    · exact absurd ((hreplayed he).mp hin).1 (Nat.not_le_of_lt hlate)
    · exact hin

end Complete

/-- A run whose subscriber got everything in order had no disturbing section. -/
theorem undisturbed_of_received {from_ : Revision} {s t : System} {as : List Action}
    (hr : Recorded s) (h : OnTheWay from_ s) (ht : exec (step from_) s as = some t)
    (hdone : t.writers = []) (hfew : t.log.length < 1024)
    (hall : t.received = t.log.drop from_) : Guarded (step from_) (Undisturbed from_) s as := by
  induction as generalizing s with
  | nil => trivial
  | cons a as ih =>
    rw [exec_cons] at ht
    obtain ⟨u, hu, htu⟩ := Option.bind_eq_some_iff.mp ht
    have hru := recorded_step hr hu
    have hrt := recorded_run hru htu
    suffices hg : Undisturbed from_ s a by
      intro v hv
      rw [hu] at hv
      cases hv
      have hle := (log_grows_run htu).length_le
      exact ⟨hg, ih hru (onTheWay_step hr h hg hu (Nat.lt_of_le_of_lt hle hfew)) htu⟩
    cases a with
    | Write w =>
      intro hp hpatch
      rw [hr.follows.revision]
      exact patch_is_new hp hu htu hdone hall hpatch
    | Broadcast i =>
      intro hp
      exact oldest_sends_first hr hp hu htu hrt hdone hall
    | ReadHistory => trivial
    | Attach => exact writers_hold_the_rest hr h hu htu hrt hdone hall

/-- An undisturbed run gives the subscriber the rest of the log. -/
theorem received_of_undisturbed {from_ : Revision} {s t : System} {as : List Action}
    (hr : Recorded s) (h : OnTheWay from_ s) (ht : exec (step from_) s as = some t)
    (hdone : t.writers = []) (hatt : t.phase = .Attached) (hfew : t.log.length < 1024)
    (hg : Guarded (step from_) (Undisturbed from_) s as) : t.received = t.log.drop from_ := by
  induction as generalizing s with
  | nil =>
    cases ht
    unfold OnTheWay at h
    rw [hatt] at h
    obtain ⟨_, delivered, hrec, hway⟩ := h
    rw [hdone, List.append_nil] at hway
    rw [hrec, hway, replay_then_rest]
  | cons a as ih =>
    rw [exec_cons] at ht
    obtain ⟨u, hu, htu⟩ := Option.bind_eq_some_iff.mp ht
    obtain ⟨hga, hgu⟩ := hg u hu
    have hle := (log_grows_run htu).length_le
    exact ih (recorded_step hr hu)
      (onTheWay_step hr h hga hu (Nat.lt_of_le_of_lt hle hfew)) htu hgu

/-- The stream over the rows of an earlier state gives the rows of the last one. -/
theorem stream_rebuilds_the_rows {from_ : Revision} {u t : System} {as : List Action}
    (hu : Recorded u) (ht : Recorded t) (hut : exec (step from_) u as = some t)
    (hfrom : u.plane.revision = from_) (hall : t.received = t.log.drop from_) :
    fold_patches u.plane.row_map t.stream = t.plane.row_map := by
  obtain ⟨more, hmore⟩ := log_grows_run hut
  have hlen := hu.follows.revision
  rw [hfrom] at hlen
  rw [ht.stream, hall, ← hmore, hlen, List.drop_left, hu.follows.row_map, ht.follows.row_map,
    ← fold_patches_append, ← List.map_append, hmore]

/-- In a complete run of fewer patches than the history holds, the subscriber
gets every patch after `from` once and in order exactly when no section disturbs
the stream, and then the stream rebuilds the rows. -/
theorem stream_is_complete_iff_no_section_disturbs_it (column_ids : List String)
    (from_ : Revision) (as : List Action) (t : System)
    (ht : exec (step from_) (start column_ids) as = some t)
    (hdone : t.writers = []) (hatt : t.phase = .Attached) (hfew : t.log.length < 1024) :
    t.stream = t.received.map HistoryEntry.patch ∧
      ((t.received = t.log.filter fun e => e.revision > from_) ↔
        Guarded (step from_) (Undisturbed from_) (start column_ids) as) ∧
      (Guarded (step from_) (Undisturbed from_) (start column_ids) as →
        ∀ before after u, as = before ++ after →
          exec (step from_) (start column_ids) before = some u → u.plane.revision = from_ →
          fold_patches u.plane.row_map t.stream = t.plane.row_map) := by
  have hstart := recorded_start column_ids
  have hrt := recorded_run hstart ht
  have hway : OnTheWay from_ (start column_ids) := trivial
  refine ⟨hrt.stream, ?_, ?_⟩
  · rw [log_filter hrt]
    constructor
    · exact undisturbed_of_received hstart hway ht hdone hfew
    · exact received_of_undisturbed hstart hway ht hdone hatt hfew
  · intro hg before after u hsplit hu hfrom
    have hall := received_of_undisturbed hstart hway ht hdone hatt hfew hg
    rw [hsplit, exec_append, hu] at ht
    exact stream_rebuilds_the_rows (recorded_run hstart hu) hrt ht hfrom hall

/-- A patch made between the read and the attachment and sent after both. -/
def lateSend : List Action :=
  [.Write (.upsert { id := "a", cells := [] }), .Broadcast 0, .ReadHistory,
    .Write (.upsert { id := "b", cells := [] }), .Attach, .Broadcast 0]

theorem late_send_is_complete :
    ∃ t, exec (step 0) (start []) lateSend = some t ∧
      t.stream = t.received.map HistoryEntry.patch ∧
      Guarded (step 0) (Undisturbed 0) (start []) lateSend ∧
      fold_patches (start []).plane.row_map t.stream = t.plane.row_map := by
  obtain ⟨t, ht⟩ : ∃ t, exec (step 0) (start []) lateSend = some t := ⟨_, rfl⟩
  have hlast : (exec (step 0) (start []) lateSend).map (fun t =>
      (t.writers, t.phase, t.log.length, t.received, t.log.filter fun e => e.revision > 0)) =
      some ([], .Attached, 2,
        [{ revision := 1, patch := .Upsert "a" { id := "a", cells := [] } },
          { revision := 2, patch := .Upsert "b" { id := "b", cells := [] } }],
        [{ revision := 1, patch := .Upsert "a" { id := "a", cells := [] } },
          { revision := 2, patch := .Upsert "b" { id := "b", cells := [] } }]) := rfl
  rw [ht] at hlast
  simp only [Option.map_some, Option.some.injEq, Prod.mk.injEq] at hlast
  obtain ⟨hdone, hatt, hlen, hrec, hlog⟩ := hlast
  obtain ⟨hstream, hiff, hrows⟩ :=
    stream_is_complete_iff_no_section_disturbs_it [] 0 lateSend t ht hdone hatt (by omega)
  have hg := hiff.mp (hrec.trans hlog.symm)
  exact ⟨t, ht, hstream, hg, hrows hg [] lateSend (start []) rfl rfl rfl⟩

/-- A patch made and sent between the read and the attachment is lost. -/
theorem a_patch_between_the_two_locks_is_lost :
    ∃ t, exec (step 0) (start []) [.ReadHistory, .Write (.upsert { id := "a", cells := [] }),
        .Broadcast 0, .Attach] = some t ∧
      t.writers = [] ∧ t.phase = .Attached ∧ t.log.length < 1024 ∧
      t.log = [{ revision := 1, patch := .Upsert "a" { id := "a", cells := [] } }] ∧
      t.stream = [] :=
  ⟨_, rfl, rfl, rfl, by decide, rfl, rfl⟩

end kaptein_viewmodel.subscribe_race
