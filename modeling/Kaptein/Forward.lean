-- Port forwards. A stream to the pod and a local connection are bridged by
-- `copy_bidi` until one of the two ends. `forward` opens a stream for each
-- connection that it accepts. `reconnect_loop`, which serves a named forward, opens
-- one stream and accepts on it until an accept fails.
import Kaptein.Lib.Runs

open runs
open scoped List

namespace kaptein_core.portforward

/-- A stream to the pod. `served` holds the connections that were bridged to it so
far. A byte that arrives stands with the place in `served` of the connection that it
belongs to: a pod that greets first means the first connection to come. -/
structure Upstream where
  id : Nat
  served : List Nat
  ended : Bool
  sent : List (Nat × UInt8)
  arriving : List (Nat × UInt8)
  deriving DecidableEq

/-- A byte that was written to a local connection. The owner is the connection that
the byte belongs to. -/
structure Delivery where
  stream : Nat
  owner : Option Nat
  connection : Nat
  byte : UInt8
  deriving DecidableEq

/-! ## The bridge -/

/-- What one turn of the `select!` of `copy_bidi` finds. A read gives at most a buffer,
`written` tells how much of it `write_all` wrote before it failed or was done, and
`none` is a read that failed. -/
inductive Turn where
  | Local (read : Option (List UInt8)) (written : Nat)
  | Upstream (read : Option Nat) (written : Nat)
  deriving DecidableEq

/-- Both buffers hold 64 KiB. -/
def BUFFER : Nat := 64 * 1024

/-- One turn of the loop of `copy_bidi`: the stream, what the local connection was
given, and whether the loop goes on. -/
def copy_bidi (connection : Nat) (u : Upstream) : Turn → Option (Upstream × List Delivery × Bool)
  | .Local none _ => some (u, [], false)
  | .Local (some bytes) written =>
    if bytes.length ≤ BUFFER ∧ written ≤ bytes.length then
      some ({ u with sent := u.sent ++ (bytes.take written).map fun b => (connection, b) }, [],
        decide (bytes ≠ [] ∧ written = bytes.length))
    else none
  | .Upstream none _ => if u.ended then some ({ u with arriving := [] }, [], false) else none
  | .Upstream (some n) written =>
    -- a read of nothing is the end of the stream
    if n ≤ BUFFER ∧ written ≤ n ∧ n ≤ u.arriving.length ∧
        (n = 0 → u.ended ∧ u.arriving = []) then
      some ({ u with arriving := u.arriving.drop n },
        (u.arriving.take written).map fun b => ⟨u.id, u.served[b.1]?, connection, b.2⟩,
        decide (n ≠ 0 ∧ written = n))
    else none

/-- What the pod does on a stream: it can end it at any time. -/
inductive Pod where
  | Answers (place : Nat) (bytes : List UInt8)
  | Ends
  deriving DecidableEq

/-! ## The history -/

inductive Event where
  | Opened (stream : Nat)
  | Ended (stream : Nat)
  | Bridged (connection stream : Nat)
  deriving DecidableEq

/-- What happened so far. Streams and connections are numbered as they come, and the
log has the newest event first. -/
structure History where
  opened : Nat
  accepted : Nat
  log : List Event
  delivered : List Delivery
  deriving DecidableEq

def History.empty : History := ⟨0, 0, [], []⟩

/-- `portforward` and `take_stream` gave a stream. -/
def History.open_stream (h : History) : History × Upstream :=
  ({ h with opened := h.opened + 1, log := .Opened h.opened :: h.log },
    ⟨h.opened, [], false, [], []⟩)

/-- `listener.accept` gave a connection. -/
def History.accept (h : History) : History := { h with accepted := h.accepted + 1 }

def History.bridge (h : History) (connection : Nat) (u : Upstream) : History × Upstream :=
  ({ h with log := .Bridged connection u.id :: h.log },
    { u with served := u.served ++ [connection] })

def History.pod (h : History) (u : Upstream) : Pod → Option (History × Upstream)
  | .Answers place bytes =>
    if u.ended = false ∧ (place = 0 ∨ place < u.served.length) then
      some (h, { u with arriving := u.arriving ++ bytes.map fun b => (place, b) })
    else none
  | .Ends =>
    if u.ended then none
    else some ({ h with log := .Ended u.id :: h.log }, { u with ended := true })

def History.deliver (h : History) (ds : List Delivery) : History :=
  { h with delivered := h.delivered ++ ds }

/-- No stream serves two connections, a connection is given only its own bytes, none is
bridged to a stream that ended, and a connection that comes after the end of a stream
has one that was opened after that end. -/
structure Isolated (h : History) : Prop where
  alone : ∀ c d n, .Bridged c n ∈ h.log → .Bridged d n ∈ h.log → c = d
  own : ∀ d ∈ h.delivered, d.owner = some d.connection
  live : ∀ c n, ¬ [.Bridged c n, .Ended n] <+ h.log
  renewed : ∀ old c n, [.Bridged c n, .Ended old] <+ h.log →
    [.Bridged c n, .Opened n, .Ended old] <+ h.log

/-! ## The loops -/

/-- Where `reconnect_loop` stands. -/
inductive Phase where
  | Check
  | Portforward
  | Sleep
  | Accept (u : Upstream)
  | Copy (connection : Nat) (u : Upstream)
  | Returned
  deriving DecidableEq

/-- A named forward with its cancel channel: the value, whether it was sent since the
start, and whether the sender is gone. -/
structure NamedForward where
  cancel : Bool
  changed : Bool
  closed : Bool
  phase : Phase
  history : History
  deriving DecidableEq

/-- The listener is bound, and the loop is spawned. -/
def start_named_forward : NamedForward := ⟨false, false, false, .Check, .empty⟩

inductive Act where
  | Check
  | Portforward (taken : Bool)
  | Wake
  | Cancelled
  | Accept (ok : Bool)
  | Copy (turn : Turn)
  | Pod (event : Pod)
  | Send (value : Bool)
  | DropSender
  deriving DecidableEq

/-- One step of `reconnect_loop`, of the pod, or of the holder of the sender. -/
def reconnect_loop (s : NamedForward) : Act → Option NamedForward
  | .Check =>
    match s.phase with
    | .Check => some { s with phase := if s.cancel then .Returned else .Portforward }
    | _ => none
  | .Portforward taken =>
    match s.phase with
    | .Portforward =>
      if taken then
        some { s with
          phase := .Accept s.history.open_stream.2, history := s.history.open_stream.1 }
      else some { s with phase := .Sleep }
    | _ => none
  | .Wake =>
    match s.phase with
    | .Sleep => some { s with phase := .Check }
    | _ => none
  | .Cancelled =>
    match s.phase with
    | .Accept _ => if s.changed || s.closed then some { s with phase := .Returned } else none
    | _ => none
  | .Accept ok =>
    match s.phase with
    | .Accept u =>
      if ok then
        let (history, u) := s.history.accept.bridge s.history.accepted u
        some { s with phase := .Copy s.history.accepted u, history }
      else some { s with phase := .Check }
    | _ => none
  | .Copy turn =>
    match s.phase with
    | .Copy connection u =>
      match copy_bidi connection u turn with
      | some (u, delivered, on) =>
        -- the stream stays at hand for the next connection
        some { s with
          phase := if on then .Copy connection u else .Accept u
          history := s.history.deliver delivered }
      | none => none
    | _ => none
  | .Pod event =>
    match s.phase with
    | .Accept u =>
      (s.history.pod u event).map fun (history, u) => { s with phase := .Accept u, history }
    | .Copy connection u =>
      (s.history.pod u event).map fun (history, u) =>
        { s with phase := .Copy connection u, history }
    | _ => none
  | .Send value => if s.closed then none else some { s with cancel := value, changed := true }
  | .DropSender => some { s with closed := true }

/-- Where the task of `forward` stands. -/
inductive ForwardPhase where
  | Accept
  | Portforward (connection : Nat)
  | Copy (connection : Nat) (u : Upstream)
  | Done
  deriving DecidableEq

structure Forward where
  phase : ForwardPhase
  history : History
  deriving DecidableEq

inductive ForwardAct where
  | Accept (ok : Bool)
  | Portforward (taken : Bool)
  | Copy (turn : Turn)
  | Pod (event : Pod)
  deriving DecidableEq

/-- One step of the task of `forward`, or of the pod. -/
def forward (s : Forward) : ForwardAct → Option Forward
  | .Accept ok =>
    match s.phase with
    | .Accept =>
      if ok then
        some { phase := .Portforward s.history.accepted, history := s.history.accept }
      else some { s with phase := .Done }
    | _ => none
  | .Portforward taken =>
    match s.phase with
    | .Portforward connection =>
      if taken then
        let (history, u) := s.history.open_stream
        let (history, u) := history.bridge connection u
        some { phase := .Copy connection u, history }
      else some { s with phase := .Accept }
    | _ => none
  | .Copy turn =>
    match s.phase with
    | .Copy connection u =>
      match copy_bidi connection u turn with
      | some (u, delivered, on) =>
        some {
          phase := if on then .Copy connection u else .Accept
          history := s.history.deliver delivered }
      | none => none
    | _ => none
  | .Pod event =>
    match s.phase with
    | .Copy connection u =>
      (s.history.pod u event).map fun (history, u) => { phase := .Copy connection u, history }
    | _ => none

/-! ## Streams that serve one connection -/

/-- The numbers of an event are given out already. -/
def Event.Below (opened accepted : Nat) : Event → Prop
  | .Opened n => n < opened
  | .Ended n => n < opened
  | .Bridged c n => c < accepted ∧ n < opened

def Numbered (h : History) : Prop := ∀ e ∈ h.log, e.Below h.opened h.accepted

/-- The stream at hand, which served at most one connection. -/
structure AtHand (h : History) (u : Upstream) : Prop where
  opened : u.id < h.opened
  ended : .Ended u.id ∈ h.log ↔ u.ended = true
  served : ∀ c, .Bridged c u.id ∈ h.log ↔ c ∈ u.served
  alone : u.served.length ≤ 1
  places : ∀ b ∈ u.arriving, b.1 = 0
  newest : ∀ old, .Ended old ∈ h.log → old ≠ u.id → [.Opened u.id, .Ended old] <+ h.log

theorem pair_sublist_cons {a b e : Event} {log : List Event} :
    [a, b] <+ e :: log ↔ [a, b] <+ log ∨ a = e ∧ b ∈ log := by
  rw [List.sublist_cons_iff]
  simp

theorem isolated_empty : Isolated .empty := by
  constructor <;> simp [History.empty]

theorem numbered_empty : Numbered .empty := by
  intro e he
  cases he

theorem Event.Below.mono {e : Event} {opened opened' accepted accepted' : Nat}
    (h : e.Below opened accepted) (ho : opened ≤ opened') (ha : accepted ≤ accepted') :
    e.Below opened' accepted' := by
  cases e <;> simp only [Event.Below] at h ⊢ <;> omega

/-- An event other than a bridge keeps the isolation. -/
theorem Isolated.cons {h : History} {e : Event} (hi : Isolated h)
    (he : ∀ c n, e ≠ .Bridged c n) (opened : Nat) :
    Isolated { h with opened, log := e :: h.log } := by
  have hne : ∀ c n, .Bridged c n ≠ e := fun c n heq => he c n heq.symm
  constructor
  · intro c d n hc hd
    simp only [List.mem_cons, hne, false_or] at hc hd
    exact hi.alone c d n hc hd
  · exact hi.own
  · intro c n hsub
    rw [pair_sublist_cons] at hsub
    rcases hsub with hsub | ⟨heq, _⟩
    · exact hi.live c n hsub
    · exact hne c n heq
  · intro old c n hsub
    rw [pair_sublist_cons] at hsub
    rcases hsub with hsub | ⟨heq, _⟩
    · exact (hi.renewed old c n hsub).cons e
    · exact absurd heq (hne c n)

/-! ### Opening a stream -/

theorem isolated_open {h : History} (hi : Isolated h) : Isolated h.open_stream.1 :=
  hi.cons (by simp) _

theorem numbered_open {h : History} (hn : Numbered h) : Numbered h.open_stream.1 := by
  intro e he
  rcases List.mem_cons.mp he with rfl | he
  · exact Nat.lt_succ_self h.opened
  · exact (hn e he).mono (Nat.le_succ _) (Nat.le_refl _)

theorem at_hand_open {h : History} (hn : Numbered h) :
    AtHand h.open_stream.1 h.open_stream.2 := by
  constructor
  · simp [History.open_stream]
  · simp only [History.open_stream, List.mem_cons, reduceCtorEq, false_or, iff_false]
    intro hmem
    exact Nat.lt_irrefl _ (hn _ hmem)
  · intro c
    simp only [History.open_stream, List.mem_cons, reduceCtorEq, false_or, List.not_mem_nil,
      iff_false]
    intro hmem
    exact Nat.lt_irrefl _ (hn _ hmem).2
  · simp [History.open_stream]
  · simp [History.open_stream]
  · intro old hmem _
    simp only [History.open_stream, List.mem_cons, reduceCtorEq, false_or] at hmem ⊢
    rw [pair_sublist_cons]
    exact Or.inr ⟨rfl, hmem⟩

/-! ### Bridging a connection -/

theorem isolated_accept {h : History} (hi : Isolated h) : Isolated h.accept :=
  ⟨hi.alone, hi.own, hi.live, hi.renewed⟩

theorem numbered_accept {h : History} (hn : Numbered h) : Numbered h.accept :=
  fun e he => (hn e he).mono (Nat.le_refl _) (Nat.le_succ _)

theorem at_hand_accept {h : History} {u : Upstream} (hu : AtHand h u) : AtHand h.accept u :=
  ⟨hu.opened, hu.ended, hu.served, hu.alone, hu.places, hu.newest⟩

/-- A new connection on a stream that served none and did not end. -/
theorem isolated_bridge {h : History} {u : Upstream} (c : Nat) (hi : Isolated h)
    (hu : AtHand h u) (hserved : u.served = []) (hended : u.ended = false) :
    Isolated (h.bridge c u).1 := by
  have hfirst : ∀ d, .Bridged d u.id ∉ h.log := by
    intro d hd
    rw [hu.served, hserved] at hd
    cases hd
  have hlive : .Ended u.id ∉ h.log := by
    intro hmem
    rw [hu.ended, hended] at hmem
    cases hmem
  constructor
  · intro d d' n hd hd'
    simp only [History.bridge, List.mem_cons, Event.Bridged.injEq] at hd hd'
    rcases hd with ⟨rfl, rfl⟩ | hd
    · rcases hd' with ⟨rfl, _⟩ | hd'
      · rfl
      · exact absurd hd' (hfirst d')
    · rcases hd' with ⟨rfl, rfl⟩ | hd'
      · exact absurd hd (hfirst d)
      · exact hi.alone d d' n hd hd'
  · exact hi.own
  · intro d n hsub
    simp only [History.bridge, pair_sublist_cons] at hsub
    rcases hsub with hsub | ⟨heq, hmem⟩
    · exact hi.live d n hsub
    · cases heq
      exact hlive hmem
  · intro old d n hsub
    simp only [History.bridge, pair_sublist_cons] at hsub ⊢
    rcases hsub with hsub | ⟨heq, hmem⟩
    · exact (hi.renewed old d n hsub).cons _
    · cases heq
      have hne : old ≠ u.id := by
        rintro rfl
        exact hlive hmem
      exact (hu.newest old hmem hne).cons_cons _

theorem numbered_bridge {h : History} {u : Upstream} {c : Nat} (hn : Numbered h)
    (hu : AtHand h u) (hc : c < h.accepted) : Numbered (h.bridge c u).1 := by
  intro e he
  rcases List.mem_cons.mp he with rfl | he
  · exact ⟨hc, hu.opened⟩
  · exact hn e he

theorem at_hand_bridge {h : History} {u : Upstream} (c : Nat) (hu : AtHand h u)
    (hserved : u.served = []) : AtHand (h.bridge c u).1 (h.bridge c u).2 := by
  constructor
  · exact hu.opened
  · simp only [History.bridge, List.mem_cons, reduceCtorEq, false_or]
    exact hu.ended
  · intro d
    simp [History.bridge, hu.served d, hserved]
  · simp [History.bridge, hserved]
  · exact hu.places
  · intro old hmem hne
    simp only [History.bridge, List.mem_cons, reduceCtorEq, false_or] at hmem ⊢
    exact (hu.newest old hmem hne).cons _

/-! ### The pod and the copy -/

/-- Whatever the pod does, the stream serves the same connections, and a stream that
served at most one gets no bytes for another. -/
theorem pod_spec {h h' : History} {u v : Upstream} {event : Pod}
    (heq : h.pod u event = some (h', v)) (hi : Isolated h) (hn : Numbered h) (hu : AtHand h u) :
    Isolated h' ∧ Numbered h' ∧ AtHand h' v ∧ v.served = u.served ∧
      h'.accepted = h.accepted ∧
      ∀ c n, .Bridged c n ∈ h'.log ↔ .Bridged c n ∈ h.log := by
  cases event with
  | Answers place bytes =>
    simp only [History.pod, Option.ite_none_right_eq_some, Option.some.injEq,
      Prod.mk.injEq] at heq
    obtain ⟨⟨_, hplace⟩, rfl, rfl⟩ := heq
    refine ⟨hi, hn, ⟨hu.opened, hu.ended, hu.served, hu.alone, ?_, hu.newest⟩, rfl, rfl,
      fun c n => Iff.rfl⟩
    intro b hb
    simp only [List.mem_append, List.mem_map] at hb
    rcases hb with hb | ⟨x, _, rfl⟩
    · exact hu.places b hb
    · have := hu.alone
      dsimp only
      omega
  | Ends =>
    simp only [History.pod, Option.ite_none_left_eq_some, Option.some.injEq,
      Prod.mk.injEq] at heq
    obtain ⟨hended, rfl, rfl⟩ := heq
    refine ⟨hi.cons (by simp) _, ?_, ⟨hu.opened, ?_, ?_, hu.alone, hu.places, ?_⟩, rfl, rfl,
      by simp⟩
    · intro e he
      rcases List.mem_cons.mp he with rfl | he
      · exact hu.opened
      · exact hn e he
    · simp
    · intro c
      simp [hu.served c]
    · intro old hmem hne
      simp only [List.mem_cons, Event.Ended.injEq] at hmem
      rcases hmem with heq | hmem
      · exact absurd heq hne
      · exact (hu.newest old hmem hne).cons _

/-- The copy leaves the stream to the connections that it serves, and delivers only
bytes that arrived on it. -/
theorem copy_bidi_spec {c : Nat} {u v : Upstream} {turn : Turn} {ds : List Delivery} {on : Bool}
    (h : copy_bidi c u turn = some (v, ds, on)) :
    v.id = u.id ∧ v.served = u.served ∧ v.ended = u.ended ∧ v.arriving ⊆ u.arriving ∧
      ∀ d ∈ ds, ∃ b ∈ u.arriving, d = ⟨u.id, u.served[b.1]?, c, b.2⟩ := by
  rcases turn with ⟨_ | bytes, written⟩ | ⟨_ | n, written⟩
  · simp only [copy_bidi, Option.some.injEq, Prod.mk.injEq] at h
    obtain ⟨rfl, rfl, _⟩ := h
    simp
  · simp only [copy_bidi, Option.ite_none_right_eq_some, Option.some.injEq,
      Prod.mk.injEq] at h
    obtain ⟨_, rfl, rfl, _⟩ := h
    simp
  · simp only [copy_bidi, Option.ite_none_right_eq_some, Option.some.injEq,
      Prod.mk.injEq] at h
    obtain ⟨_, rfl, rfl, _⟩ := h
    simp
  · simp only [copy_bidi, Option.ite_none_right_eq_some, Option.some.injEq,
      Prod.mk.injEq] at h
    obtain ⟨_, rfl, rfl, _⟩ := h
    refine ⟨rfl, rfl, rfl, List.drop_subset _ _, ?_⟩
    intro d hd
    obtain ⟨b, hb, rfl⟩ := List.mem_map.mp hd
    exact ⟨b, List.take_subset _ _ hb, rfl⟩

/-- A connection that has its stream alone is given its own bytes. -/
theorem copy_keeps {h : History} {c : Nat} {u v : Upstream} {turn : Turn} {ds : List Delivery}
    {on : Bool} (heq : copy_bidi c u turn = some (v, ds, on)) (hi : Isolated h)
    (hn : Numbered h) (hu : AtHand h u) (hc : u.served = [c]) :
    Isolated (h.deliver ds) ∧ Numbered (h.deliver ds) ∧ AtHand (h.deliver ds) v ∧
      v.served = [c] := by
  obtain ⟨hid, hserved, hended, harriving, hds⟩ := copy_bidi_spec heq
  refine ⟨⟨hi.alone, ?_, hi.live, hi.renewed⟩, hn, ?_, hserved.trans hc⟩
  · intro d hd
    rcases List.mem_append.mp hd with hd | hd
    · exact hi.own d hd
    · obtain ⟨b, hb, rfl⟩ := hds d hd
      simp [hc, hu.places b hb]
  · constructor
    · rw [hid]
      exact hu.opened
    · rw [hid, hended]
      exact hu.ended
    · intro d
      rw [hid, hserved]
      exact hu.served d
    · rw [hserved]
      exact hu.alone
    · intro b hb
      exact hu.places b (harriving hb)
    · rw [hid]
      exact hu.newest

/-! ## The named forward -/

/-- Each accepted connection is bridged, to a stream opened for it alone. -/
def NamedForward.isolated (s : NamedForward) : Prop :=
  (∀ c < s.history.accepted, ∃ n, .Bridged c n ∈ s.history.log) ∧ Isolated s.history

/-- A connection is accepted only while the stream at hand served none and did not end. -/
def NamedForward.unused (s : NamedForward) : Act → Prop
  | .Accept true => ∀ u, s.phase = .Accept u → u.served = [] ∧ u.ended = false
  | _ => True

/-- What the loop holds in each phase. -/
def NamedForward.holds (s : NamedForward) : Prop :=
  match s.phase with
  | .Accept u => AtHand s.history u
  | .Copy connection u => AtHand s.history u ∧ u.served = [connection]
  | _ => True

structure NamedForward.Serves (s : NamedForward) : Prop where
  isolated : s.isolated
  numbered : Numbered s.history
  holds : s.holds

theorem serves_start : start_named_forward.Serves :=
  ⟨⟨by simp [start_named_forward, History.empty], isolated_empty⟩, numbered_empty, trivial⟩

/-- What a step of the loop does: it moves without touching the streams, it opens one, it
accepts a connection on the one at hand, it copies, or the pod acts on it. -/
theorem reconnect_loop_cases {s t : NamedForward} {a : Act} (h : reconnect_loop s a = some t) :
    (t.history = s.history ∧ (t.holds ∨ t.phase = s.phase)) ∨
    (t.history = s.history.open_stream.1 ∧ t.phase = .Accept s.history.open_stream.2) ∨
    (∃ u, a = .Accept true ∧ s.phase = .Accept u ∧
      t.history = (s.history.accept.bridge s.history.accepted u).1 ∧
      t.phase = .Copy s.history.accepted (s.history.accept.bridge s.history.accepted u).2) ∨
    (∃ c u turn v ds on, s.phase = .Copy c u ∧ copy_bidi c u turn = some (v, ds, on) ∧
      t.history = s.history.deliver ds ∧ t.phase = if on then .Copy c v else .Accept v) ∨
    (∃ u event v, s.history.pod u event = some (t.history, v) ∧
      (s.phase = .Accept u ∧ t.phase = .Accept v ∨
        ∃ c, s.phase = .Copy c u ∧ t.phase = .Copy c v)) := by
  cases a with
  | Check =>
    simp only [reconnect_loop] at h
    split at h
    · cases h
      left
      cases s.cancel <;> simp [NamedForward.holds]
    · cases h
  | Portforward taken =>
    simp only [reconnect_loop] at h
    split at h
    · split at h
      · cases h
        exact Or.inr (Or.inl ⟨rfl, rfl⟩)
      · cases h
        exact Or.inl ⟨rfl, Or.inl trivial⟩
    · cases h
  | Wake =>
    simp only [reconnect_loop] at h
    split at h
    · cases h
      exact Or.inl ⟨rfl, Or.inl trivial⟩
    · cases h
  | Cancelled =>
    simp only [reconnect_loop] at h
    split at h
    · split at h
      · cases h
        exact Or.inl ⟨rfl, Or.inl trivial⟩
      · cases h
    · cases h
  | Accept ok =>
    simp only [reconnect_loop] at h
    split at h
    · rename_i u hu
      split at h
      · rename_i hok
        subst hok
        cases h
        exact Or.inr (Or.inr (Or.inl ⟨u, rfl, hu, rfl, rfl⟩))
      · cases h
        exact Or.inl ⟨rfl, Or.inl trivial⟩
    · cases h
  | Copy turn =>
    simp only [reconnect_loop] at h
    split at h
    · rename_i c u hu
      split at h
      · rename_i v ds on hcopy
        cases h
        exact Or.inr (Or.inr (Or.inr (Or.inl ⟨c, u, turn, v, ds, on, hu, hcopy, rfl, rfl⟩)))
      · cases h
    · cases h
  | Pod event =>
    simp only [reconnect_loop] at h
    split at h
    · rename_i u hu
      obtain ⟨⟨history, v⟩, hpod, rfl⟩ := Option.map_eq_some_iff.mp h
      exact Or.inr (Or.inr (Or.inr (Or.inr ⟨u, event, v, hpod, Or.inl ⟨hu, rfl⟩⟩)))
    · rename_i c u hu
      obtain ⟨⟨history, v⟩, hpod, rfl⟩ := Option.map_eq_some_iff.mp h
      exact Or.inr (Or.inr (Or.inr (Or.inr ⟨u, event, v, hpod, Or.inr ⟨c, hu, rfl⟩⟩)))
    · cases h
  | Send value =>
    simp only [reconnect_loop] at h
    split at h
    · cases h
    · cases h
      exact Or.inl ⟨rfl, Or.inr rfl⟩
  | DropSender =>
    simp only [reconnect_loop, Option.some.injEq] at h
    subst h
    exact Or.inl ⟨rfl, Or.inr rfl⟩

/-- A step that starts in an unused stream, or accepts nothing, keeps the isolation. -/
theorem serves_step {s t : NamedForward} {a : Act} (hs : s.Serves) (ha : s.unused a)
    (h : reconnect_loop s a = some t) : t.Serves := by
  obtain ⟨⟨hbridged, hi⟩, hn, hh⟩ := hs
  rcases reconnect_loop_cases h with ⟨hhist, hphase⟩ | ⟨hhist, hphase⟩ |
    ⟨u, rfl, hu, hhist, hphase⟩ | ⟨c, u, turn, v, ds, on, hu, hcopy, hhist, hphase⟩ |
    ⟨u, event, v, hpod, hphase⟩
  · refine ⟨⟨by rwa [hhist], by rwa [hhist]⟩, by rwa [hhist], ?_⟩
    rcases hphase with hholds | hphase
    · exact hholds
    · unfold NamedForward.holds at hh ⊢
      rwa [hphase, hhist]
  · refine ⟨⟨?_, ?_⟩, ?_, ?_⟩
    · rw [hhist]
      intro c hc
      obtain ⟨n, hmem⟩ := hbridged c hc
      exact ⟨n, List.mem_cons_of_mem _ hmem⟩
    · rw [hhist]
      exact isolated_open hi
    · rw [hhist]
      exact numbered_open hn
    · unfold NamedForward.holds
      rw [hphase, hhist]
      exact at_hand_open hn
  · obtain ⟨hserved, hended⟩ := ha u hu
    have hat : AtHand s.history.accept u := by
      unfold NamedForward.holds at hh
      rw [hu] at hh
      exact at_hand_accept hh
    refine ⟨⟨?_, ?_⟩, ?_, ?_⟩
    · rw [hhist]
      intro c hc
      rcases Nat.lt_succ_iff_lt_or_eq.mp hc with hc | rfl
      · obtain ⟨n, hmem⟩ := hbridged c hc
        exact ⟨n, List.mem_cons_of_mem _ hmem⟩
      · exact ⟨u.id, List.mem_cons_self⟩
    · rw [hhist]
      exact isolated_bridge _ (isolated_accept hi) hat hserved hended
    · rw [hhist]
      exact numbered_bridge (numbered_accept hn) hat (Nat.lt_succ_self _)
    · unfold NamedForward.holds
      rw [hphase, hhist]
      exact ⟨at_hand_bridge _ hat hserved, by simp [History.bridge, hserved]⟩
  · have hheld : AtHand s.history u ∧ u.served = [c] := by
      unfold NamedForward.holds at hh
      rwa [hu] at hh
    obtain ⟨hi', hn', hat, hserved⟩ := copy_keeps hcopy hi hn hheld.1 hheld.2
    refine ⟨⟨?_, by rwa [hhist]⟩, by rwa [hhist], ?_⟩
    · rw [hhist]
      exact hbridged
    · unfold NamedForward.holds
      rw [hphase, hhist]
      cases on with
      | true => exact ⟨hat, hserved⟩
      | false => exact hat
  · have hat : AtHand s.history u := by
      unfold NamedForward.holds at hh
      rcases hphase with ⟨hu, _⟩ | ⟨c, hu, _⟩
      · rwa [hu] at hh
      · rw [hu] at hh
        exact hh.1
    obtain ⟨hi', hn', hat', hserved, haccepted, hlog⟩ := pod_spec hpod hi hn hat
    refine ⟨⟨?_, hi'⟩, hn', ?_⟩
    · intro c hc
      rw [haccepted] at hc
      obtain ⟨n, hmem⟩ := hbridged c hc
      exact ⟨n, (hlog c n).mpr hmem⟩
    · unfold NamedForward.holds at hh ⊢
      rcases hphase with ⟨_, ht⟩ | ⟨c, hu, ht⟩
      · rw [ht]
        exact hat'
      · rw [ht]
        rw [hu] at hh
        exact ⟨hat', hserved.trans hh.2⟩

theorem not_unused {s : NamedForward} {a : Act} (h : ¬ s.unused a) :
    ∃ u, a = .Accept true ∧ s.phase = .Accept u ∧ (u.served ≠ [] ∨ u.ended = true) := by
  unfold NamedForward.unused at h
  split at h
  · simp only [not_forall] at h
    obtain ⟨u, hu, hused⟩ := h
    rw [not_and_or, Bool.not_eq_false] at hused
    exact ⟨u, rfl, hu, hused⟩
  · exact absurd trivial h

/-- A connection on a stream that served another, or that ended, is not isolated. -/
theorem used_breaks {s t : NamedForward} {a : Act} (hs : s.Serves) (ha : ¬ s.unused a)
    (h : reconnect_loop s a = some t) : ¬ t.isolated := by
  obtain ⟨_, hn, hh⟩ := hs
  obtain ⟨u, rfl, hu, hused⟩ := not_unused ha
  unfold NamedForward.holds at hh
  simp only [hu] at hh
  simp only [reconnect_loop, hu, if_true, Option.some.injEq] at h
  subst h
  rintro ⟨_, hi⟩
  have hnew : .Bridged s.history.accepted u.id ∈
      (s.history.accept.bridge s.history.accepted u).1.log := List.mem_cons_self
  rcases hused with hserved | hended
  · obtain ⟨d, hd⟩ := List.exists_mem_of_ne_nil _ hserved
    have hold := (hh.served d).mpr hd
    have heq := hi.alone _ _ _ (List.mem_cons_of_mem _ hold) hnew
    have hlt : d < s.history.accepted := (hn _ hold).1
    omega
  · apply hi.live s.history.accepted u.id
    exact (List.singleton_sublist.mpr (hh.ended.mpr hended)).cons_cons _

/-- The connections of a named forward are isolated in exactly the runs that accept each
of them on an unused stream. -/
theorem connections_are_isolated_iff (acts : List Act) :
    Always reconnect_loop NamedForward.isolated start_named_forward acts ↔
      Guarded reconnect_loop NamedForward.unused start_named_forward acts :=
  always_iff_guarded (A := fun _ => True) (fun _ hs => hs.isolated)
    (fun _ _ _ _ hs ha h => serves_step hs ha h)
    (fun _ _ _ _ hs ha h => used_breaks hs ha h) serves_start (fun _ _ => trivial)

/-- The first connection leaves before it reads what the pod answered, and the second one
is given that byte. -/
def second_client : List Act :=
  [.Check, .Portforward true, .Accept true, .Pod (.Answers 0 [72]), .Copy (.Local (some []) 0),
    .Accept true, .Copy (.Upstream (some 1) 1)]

/-- The pod restarts between two connections. -/
def restart : List Act :=
  [.Check, .Portforward true, .Accept true, .Pod .Ends, .Copy (.Upstream (some 0) 0),
    .Accept true]

theorem a_second_client_reads_the_first :
    ¬ Always reconnect_loop NamedForward.isolated start_named_forward second_client ∧
      ¬ Always reconnect_loop NamedForward.isolated start_named_forward restart := by
  constructor
  · intro h
    obtain ⟨_, hi⟩ := h.last (t := ⟨false, false, false, .Copy 1 ⟨0, [0, 1], false, [], []⟩,
      ⟨1, 2, [.Bridged 1 0, .Bridged 0 0, .Opened 0], [⟨0, some 0, 1, 72⟩]⟩⟩) (by decide)
    have howner := hi.own ⟨0, some 0, 1, 72⟩ List.mem_cons_self
    simp at howner
  · intro h
    obtain ⟨_, hi⟩ := h.last (t := ⟨false, false, false, .Copy 1 ⟨0, [0, 1], true, [], []⟩,
      ⟨1, 2, [.Bridged 1 0, .Ended 0, .Bridged 0 0, .Opened 0], []⟩⟩) (by decide)
    exact hi.live 1 0 (by decide)

/-! ## A stream for each connection -/

/-- What the task of `forward` holds while it copies. -/
def Forward.holds (s : Forward) : Prop :=
  match s.phase with
  | .Portforward connection => connection < s.history.accepted
  | .Copy connection u => AtHand s.history u ∧ u.served = [connection]
  | _ => True

structure Forward.Serves (s : Forward) : Prop where
  isolated : Isolated s.history
  numbered : Numbered s.history
  holds : s.holds

theorem forward_step {s t : Forward} {a : ForwardAct} (hs : s.Serves)
    (h : forward s a = some t) : t.Serves := by
  obtain ⟨hi, hn, hh⟩ := hs
  unfold Forward.holds at hh
  cases a with
  | Accept ok =>
    simp only [forward] at h
    split at h
    · split at h
      · cases h
        exact ⟨isolated_accept hi, numbered_accept hn, Nat.lt_succ_self _⟩
      · cases h
        exact ⟨hi, hn, trivial⟩
    · cases h
  | Portforward taken =>
    simp only [forward] at h
    split at h
    · rename_i c hc
      rw [hc] at hh
      split at h
      · cases h
        have hat := at_hand_open hn
        exact ⟨isolated_bridge c (isolated_open hi) hat rfl rfl,
          numbered_bridge (numbered_open hn) hat hh, at_hand_bridge c hat rfl, rfl⟩
      · cases h
        exact ⟨hi, hn, trivial⟩
    · cases h
  | Copy turn =>
    simp only [forward] at h
    split at h
    · rename_i c u hc
      rw [hc] at hh
      split at h
      · rename_i v ds on hcopy
        cases h
        obtain ⟨hi', hn', hat, hserved⟩ := copy_keeps hcopy hi hn hh.1 hh.2
        refine ⟨hi', hn', ?_⟩
        cases on with
        | true => exact ⟨hat, hserved⟩
        | false => exact trivial
      · cases h
    · cases h
  | Pod event =>
    simp only [forward] at h
    split at h
    · rename_i c u hc
      rw [hc] at hh
      obtain ⟨⟨history, v⟩, hpod, rfl⟩ := Option.map_eq_some_iff.mp h
      obtain ⟨hi', hn', hat, hserved, _⟩ := pod_spec hpod hi hn hh.1
      exact ⟨hi', hn', hat, hserved.trans hh.2⟩
    · cases h

/-- Where each connection gets a stream of its own, the connections are isolated in
every run. -/
theorem forward_is_isolated (acts : List ForwardAct) :
    Always forward (fun s => Isolated s.history) ⟨.Accept, .empty⟩ acts := by
  have hstart : Forward.Serves ⟨.Accept, .empty⟩ := ⟨isolated_empty, numbered_empty, trivial⟩
  have hrun : Always forward Forward.Serves ⟨.Accept, .empty⟩ acts :=
    Always.of_step (fun _ _ _ hs h => forward_step hs h) hstart acts
  exact hrun.mono fun _ hs => hs.isolated

end kaptein_core.portforward
