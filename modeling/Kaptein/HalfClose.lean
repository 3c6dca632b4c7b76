-- What `copy_bidi` delivers of the bytes of its two sides. Each side sends and ends
-- when it likes, and the loop leaves at the first end that it reads.
import Kaptein.Forward

open runs

namespace kaptein_core.portforward.half_close

/-- One connection and its stream. Both sides keep a list of all bytes they sent; what
arrived and was not read yet waits in `arriving`. -/
structure Bridge where
  upstream : Upstream
  pod_sent : List UInt8
  local_sent : List UInt8
  local_arriving : List UInt8
  local_ended : Bool
  delivered : List Delivery
  returned : Bool
  deriving DecidableEq

/-- A fresh stream that is bridged to the connection 0. -/
def Bridge.start : Bridge := ⟨⟨0, [0], false, [], []⟩, [], [], [], false, [], false⟩

/-- A turn reads what it finds, up to a buffer, and its write takes all of it. A read of
nothing is an end of file. -/
inductive Action where
  | LocalSends (bytes : List UInt8)
  | LocalEnds
  | PodSends (bytes : List UInt8)
  | PodEnds
  | LocalTurn (n : Nat)
  | UpstreamTurn (n : Nat)
  deriving DecidableEq

/-- The turn of `copy_bidi` that the action stands for. -/
def Action.turn (s : Bridge) : Action → Option Turn
  | .LocalTurn n =>
    if n ≤ s.local_arriving.length ∧ (n = 0 → s.local_ended ∧ s.local_arriving = []) then
      some (.Local (some (s.local_arriving.take n)) n)
    else none
  | .UpstreamTurn n => some (.Upstream (some n) n)
  | _ => none

/-- The loop stands still after its end. The sides do not. -/
def step (s : Bridge) (a : Action) : Option Bridge :=
  match a with
  | .LocalSends bytes =>
    if s.local_ended then none
    else some { s with
      local_sent := s.local_sent ++ bytes, local_arriving := s.local_arriving ++ bytes }
  | .LocalEnds => if s.local_ended then none else some { s with local_ended := true }
  | .PodSends bytes =>
    if s.upstream.ended then none
    else some { s with
      pod_sent := s.pod_sent ++ bytes
      upstream := { s.upstream with
        arriving := s.upstream.arriving ++ bytes.map fun b => (0, b) } }
  | .PodEnds =>
    if s.upstream.ended then none
    else some { s with upstream := { s.upstream with ended := true } }
  | .LocalTurn n =>
    if s.returned then none
    else ((Action.LocalTurn n).turn s).bind fun turn =>
      (copy_bidi 0 s.upstream turn).map fun (upstream, delivered, on) =>
        { s with
          upstream, delivered := s.delivered ++ delivered, returned := !on
          local_arriving := s.local_arriving.drop n }
  | .UpstreamTurn n =>
    if s.returned then none
    else ((Action.UpstreamTurn n).turn s).bind fun turn =>
      (copy_bidi 0 s.upstream turn).map fun (upstream, delivered, on) =>
        { s with upstream, delivered := s.delivered ++ delivered, returned := !on }

/-! ## What should be kept -/

/-- What the pod was given. -/
def Bridge.to_pod (s : Bridge) : List UInt8 := s.upstream.sent.map Prod.snd

/-- What the local side was given. -/
def Bridge.to_local (s : Bridge) : List UInt8 := s.delivered.map Delivery.byte

/-- Each side is given the bytes of the other in order and once, and all of them before
the return. -/
structure Preserved (s : Bridge) : Prop where
  to_pod : s.to_pod <+: s.local_sent
  to_local : s.to_local <+: s.pod_sent
  complete : s.returned = true → s.to_pod = s.local_sent ∧ s.to_local = s.pod_sent

/-- An end is read only when nothing of the other side is left to read, and after the
return nothing is sent. -/
def NothingPending (s : Bridge) : Action → Prop
  | .LocalSends bytes => s.returned = true → bytes = []
  | .PodSends bytes => s.returned = true → bytes = []
  | .LocalTurn n => n = 0 → s.upstream.arriving = []
  | .UpstreamTurn n => n = 0 → s.local_arriving = []
  | .LocalEnds => True
  | .PodEnds => True

/-! ## One step -/

/-- What was sent is what was delivered and what is still to read. -/
structure Accounted (s : Bridge) : Prop where
  to_pod : s.local_sent = s.to_pod ++ s.local_arriving
  to_local : s.pod_sent = s.to_local ++ s.upstream.arriving.map Prod.snd

theorem accounted_start : Accounted .start := ⟨rfl, rfl⟩

/-- What a side does by itself: it sends bytes, or it ends. -/
theorem step_local_sends {s t : Bridge} {bytes : List UInt8}
    (h : step s (.LocalSends bytes) = some t) :
    t = { s with
      local_sent := s.local_sent ++ bytes, local_arriving := s.local_arriving ++ bytes } := by
  simp only [step, Option.ite_none_left_eq_some, Option.some.injEq] at h
  exact h.2.symm

theorem step_local_ends {s t : Bridge} (h : step s .LocalEnds = some t) :
    t = { s with local_ended := true } := by
  simp only [step, Option.ite_none_left_eq_some, Option.some.injEq] at h
  exact h.2.symm

theorem step_pod_sends {s t : Bridge} {bytes : List UInt8} (h : step s (.PodSends bytes) = some t) :
    t = { s with
      pod_sent := s.pod_sent ++ bytes
      upstream := { s.upstream with
        arriving := s.upstream.arriving ++ bytes.map fun b => (0, b) } } := by
  simp only [step, Option.ite_none_left_eq_some, Option.some.injEq] at h
  exact h.2.symm

theorem step_pod_ends {s t : Bridge} (h : step s .PodEnds = some t) :
    t = { s with upstream := { s.upstream with ended := true } } := by
  simp only [step, Option.ite_none_left_eq_some, Option.some.injEq] at h
  exact h.2.symm

/-- What a turn on the local side does. -/
theorem step_local_turn {s t : Bridge} {n : Nat} (h : step s (.LocalTurn n) = some t) :
    s.returned = false ∧ (n = 0 → s.local_arriving = []) ∧
      t.to_pod = s.to_pod ++ s.local_arriving.take n ∧ t.local_arriving = s.local_arriving.drop n ∧
      t.local_sent = s.local_sent ∧ t.to_local = s.to_local ∧ t.pod_sent = s.pod_sent ∧
      t.upstream.arriving = s.upstream.arriving ∧ t.returned = decide (n = 0) := by
  simp only [step, Action.turn] at h
  split at h
  · cases h
  · rename_i hreturned
    split at h
    · rename_i hread
      rw [Option.bind_some, copy_bidi] at h
      split at h
      · simp only [Option.map_some, Option.some.injEq] at h
        subst h
        have hempty : s.local_arriving.take n = [] ↔ n = 0 := by
          rw [List.take_eq_nil_iff]
          constructor
          · rintro (h0 | hnil)
            · exact h0
            · have hlen := hread.1
              rw [hnil] at hlen
              exact Nat.le_zero.mp hlen
          · exact Or.inl
        refine ⟨by simpa using hreturned, fun h0 => (hread.2 h0).2, ?_, rfl, rfl, ?_, rfl, rfl, ?_⟩
        · simp [Bridge.to_pod, List.take_take, Function.comp_def]
        · simp [Bridge.to_local]
        · simp [hempty, hread.1]
      · cases h
    · cases h

/-- What a turn on the side of the pod does. -/
theorem step_upstream_turn {s t : Bridge} {n : Nat} (h : step s (.UpstreamTurn n) = some t) :
    s.returned = false ∧ (n = 0 → s.upstream.arriving = []) ∧
      t.to_local = s.to_local ++ (s.upstream.arriving.take n).map Prod.snd ∧
      t.upstream.arriving = s.upstream.arriving.drop n ∧
      t.pod_sent = s.pod_sent ∧ t.to_pod = s.to_pod ∧ t.local_sent = s.local_sent ∧
      t.local_arriving = s.local_arriving ∧ t.returned = decide (n = 0) := by
  simp only [step, Action.turn] at h
  split at h
  · cases h
  · rename_i hreturned
    rw [Option.bind_some, copy_bidi] at h
    split at h
    · rename_i hread
      simp only [Option.map_some, Option.some.injEq] at h
      subst h
      refine ⟨by simpa using hreturned, fun h0 => (hread.2.2.2 h0).2, ?_, rfl, rfl, rfl, rfl, rfl,
        ?_⟩
      · simp [Bridge.to_local, Function.comp_def]
      · simp
    · cases h

theorem Accounted.step {s t : Bridge} {a : Action} (hs : Accounted s) (h : step s a = some t) :
    Accounted t := by
  obtain ⟨hpod, hlocal⟩ := hs
  cases a with
  | LocalSends bytes =>
    obtain rfl := step_local_sends h
    refine ⟨?_, hlocal⟩
    change s.local_sent ++ bytes = s.to_pod ++ (s.local_arriving ++ bytes)
    rw [hpod, List.append_assoc]
  | LocalEnds =>
    obtain rfl := step_local_ends h
    exact ⟨hpod, hlocal⟩
  | PodSends bytes =>
    obtain rfl := step_pod_sends h
    refine ⟨hpod, ?_⟩
    change s.pod_sent ++ bytes =
      s.to_local ++ (s.upstream.arriving ++ bytes.map fun b => (0, b)).map Prod.snd
    rw [hlocal, List.append_assoc, List.map_append, List.map_map]
    have hbytes : bytes.map (Prod.snd ∘ fun b => ((0 : Nat), b)) = bytes := List.map_id bytes
    rw [hbytes]
  | PodEnds =>
    obtain rfl := step_pod_ends h
    exact ⟨hpod, hlocal⟩
  | LocalTurn n =>
    obtain ⟨_, _, hto_pod, harriving, hsent, hto_local, hpod_sent, hup, _⟩ := step_local_turn h
    constructor
    · rw [hsent, hto_pod, harriving, List.append_assoc, List.take_append_drop]
      exact hpod
    · rw [hpod_sent, hto_local, hup]
      exact hlocal
  | UpstreamTurn n =>
    obtain ⟨_, _, hto_local, harriving, hpod_sent, hto_pod, hsent, hloc, _⟩ := step_upstream_turn h
    constructor
    · rw [hsent, hto_pod, hloc]
      exact hpod
    · rw [hpod_sent, hto_local, harriving, List.append_assoc, ← List.map_append,
        List.take_append_drop]
      exact hlocal

/-! ## Runs -/

/-- The bytes are accounted for, and none is left behind a return. -/
structure Intact (s : Bridge) : Prop where
  accounted : Accounted s
  drained : s.returned = true → s.local_arriving = [] ∧ s.upstream.arriving = []

theorem intact_start : Intact .start := ⟨accounted_start, fun _ => ⟨rfl, rfl⟩⟩

theorem Intact.preserved {s : Bridge} (h : Intact s) : Preserved s := by
  obtain ⟨⟨hpod, hlocal⟩, hdrained⟩ := h
  refine ⟨⟨_, hpod.symm⟩, ⟨_, hlocal.symm⟩, ?_⟩
  intro hreturned
  obtain ⟨hl, hu⟩ := hdrained hreturned
  rw [hl, List.append_nil] at hpod
  rw [hu, List.map_nil, List.append_nil] at hlocal
  exact ⟨hpod.symm, hlocal.symm⟩

theorem Intact.step {s t : Bridge} {a : Action} (hs : Intact s) (hguard : NothingPending s a)
    (h : step s a = some t) : Intact t := by
  refine ⟨hs.accounted.step h, ?_⟩
  have hdrained := hs.drained
  cases a with
  | LocalSends bytes =>
    obtain rfl := step_local_sends h
    intro hreturned
    obtain ⟨hl, hu⟩ := hdrained hreturned
    have hbytes : bytes = [] := hguard hreturned
    exact ⟨by simp [hl, hbytes], hu⟩
  | LocalEnds =>
    obtain rfl := step_local_ends h
    exact hdrained
  | PodSends bytes =>
    obtain rfl := step_pod_sends h
    intro hreturned
    obtain ⟨hl, hu⟩ := hdrained hreturned
    have hbytes : bytes = [] := hguard hreturned
    exact ⟨hl, by simp [hu, hbytes]⟩
  | PodEnds =>
    obtain rfl := step_pod_ends h
    exact hdrained
  | LocalTurn n =>
    obtain ⟨_, hlocal, _, harriving, _, _, _, hup, hreturned⟩ := step_local_turn h
    intro hret
    rw [hreturned, decide_eq_true_eq] at hret
    exact ⟨by rw [harriving, hlocal hret, List.drop_nil], by rw [hup, hguard hret]⟩
  | UpstreamTurn n =>
    obtain ⟨_, hupstream, _, harriving, _, _, _, hloc, hreturned⟩ := step_upstream_turn h
    intro hret
    rw [hreturned, decide_eq_true_eq] at hret
    exact ⟨by rw [hloc, hguard hret], by rw [harriving, hupstream hret, List.drop_nil]⟩

/-- Bytes that are left to read at the return, or are sent after it, are lost. -/
theorem not_preserved_of_pending {s : Bridge} (h : Accounted s) (hreturned : s.returned = true)
    (hpending : s.local_arriving ≠ [] ∨ s.upstream.arriving ≠ []) : ¬Preserved s := by
  intro hp
  obtain ⟨hpod, hlocal⟩ := hp.complete hreturned
  rcases hpending with hl | hu
  · apply hl
    have heq := h.to_pod
    rw [← hpod] at heq
    exact List.self_eq_append_right.mp heq
  · apply hu
    have heq := h.to_local
    rw [← hlocal] at heq
    exact List.map_eq_nil_iff.mp (List.self_eq_append_right.mp heq)

theorem broken_step {s t : Bridge} {a : Action} (hs : Intact s) (hguard : ¬NothingPending s a)
    (h : step s a = some t) : ¬Preserved t := by
  have haccounted := hs.accounted.step h
  cases a with
  | LocalSends bytes =>
    obtain rfl := step_local_sends h
    simp only [NothingPending, Classical.not_imp] at hguard
    exact not_preserved_of_pending haccounted hguard.1 (.inl (by simp [hguard.2]))
  | LocalEnds => exact absurd trivial hguard
  | PodSends bytes =>
    obtain rfl := step_pod_sends h
    simp only [NothingPending, Classical.not_imp] at hguard
    exact not_preserved_of_pending haccounted hguard.1 (.inr (by simp [hguard.2]))
  | PodEnds => exact absurd trivial hguard
  | LocalTurn n =>
    obtain ⟨_, _, _, _, _, _, _, hup, hreturned⟩ := step_local_turn h
    simp only [NothingPending, Classical.not_imp] at hguard
    refine not_preserved_of_pending haccounted ?_ (.inr ?_)
    · rw [hreturned, decide_eq_true_eq]
      exact hguard.1
    · rw [hup]
      exact hguard.2
  | UpstreamTurn n =>
    obtain ⟨_, _, _, _, _, _, _, hloc, hreturned⟩ := step_upstream_turn h
    simp only [NothingPending, Classical.not_imp] at hguard
    refine not_preserved_of_pending haccounted ?_ (.inl ?_)
    · rw [hreturned, decide_eq_true_eq]
      exact hguard.1
    · rw [hloc]
      exact hguard.2

/-- In every run without a failure, the bytes are preserved exactly when each end is read with
nothing left to read on the other side, and nothing is sent after it. -/
theorem half_close_preserves_iff (actions : List Action) :
    Always step Preserved .start actions ↔ Guarded step NothingPending .start actions :=
  @always_iff_guarded _ _ step Intact Preserved NothingPending (fun _ => True)
    (fun _ h => h.preserved) (fun _ _ _ _ h hg ht => h.step hg ht)
    (fun _ _ _ _ h hg ht => broken_step h hg ht) _ _ intact_start (fun _ _ => trivial)

/-- The client sends its request and closes its half. The loop leaves, and the answer of
the pod is lost. -/
theorem an_answer_after_the_request_is_lost :
    ¬Always step Preserved .start
      [.LocalSends [71], .LocalTurn 1, .LocalEnds, .LocalTurn 0, .PodSends [50]] := by
  intro h
  obtain ⟨t, ht⟩ : ∃ t, exec step .start
      [.LocalSends [71], .LocalTurn 1, .LocalEnds, .LocalTurn 0, .PodSends [50]] = some t :=
    ⟨_, rfl⟩
  have hcomplete := (h.last ht).complete
  cases ht
  have hlost : ([] : List UInt8) = [50] := (hcomplete rfl).2
  cases hlost

end kaptein_core.portforward.half_close
