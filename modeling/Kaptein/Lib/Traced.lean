-- Programs that act while they run and may end early with an error. A run is
-- the list of its acts and its result; after an error nothing more happens.
import Mathlib.Data.List.Basic

structure Traced (ε α : Type) where
  events : List ε
  result : Except String α

namespace Traced

variable {ε α β : Type}

instance : Monad (Traced ε) where
  pure a := { events := [], result := .ok a }
  bind x f :=
    match x.result with
    | .ok a => { events := x.events ++ (f a).events, result := (f a).result }
    | .error e => { events := x.events, result := .error e }

def emit (e : ε) : Traced ε Unit where
  events := [e]
  result := .ok ()

def fail (msg : String) : Traced ε α where
  events := []
  result := .error msg

/-- A result that costs no act. -/
def lift (r : Except String α) : Traced ε α where
  events := []
  result := r

/-- `Option::ok_or`. -/
def ok_or (o : Option α) (msg : String) : Traced ε α :=
  match o with
  | some a => pure a
  | none => fail msg

/-- The run, where the condition holds. -/
def when (c : Bool) (x : Traced ε Unit) : Traced ε Unit := if c then x else pure ()

/-- An early return with an error, unless the condition holds. -/
def ensure (c : Bool) (msg : String) : Traced ε Unit := if c then pure () else fail msg

/-- The acts of a run whose error is caught. -/
def attempt (x : Traced ε Unit) : Traced ε Unit where
  events := x.events
  result := .ok ()

/-- The same run, with other names for its acts. -/
def map_events {ε' : Type} (f : ε → ε') (x : Traced ε α) : Traced ε' α where
  events := x.events.map f
  result := x.result

@[simp] theorem pure_events (a : α) : (pure a : Traced ε α).events = [] := rfl

@[simp] theorem pure_result (a : α) : (pure a : Traced ε α).result = .ok a := rfl

@[simp] theorem emit_events (e : ε) : (emit e).events = [e] := rfl

@[simp] theorem emit_result (e : ε) : (emit e).result = .ok () := rfl

@[simp] theorem fail_events (msg : String) : (fail msg : Traced ε α).events = [] := rfl

@[simp] theorem fail_result (msg : String) :
    (fail msg : Traced ε α).result = .error msg := rfl

@[simp] theorem lift_events (r : Except String α) : (lift r : Traced ε α).events = [] := rfl

@[simp] theorem lift_result (r : Except String α) : (lift r : Traced ε α).result = r := rfl

@[simp] theorem ok_or_some (a : α) (msg : String) :
    (ok_or (some a) msg : Traced ε α) = pure a := rfl

@[simp] theorem ok_or_none (msg : String) : (ok_or none msg : Traced ε α) = fail msg := rfl

@[simp] theorem pure_bind (a : α) (f : α → Traced ε β) : (pure a >>= f) = f a := rfl

@[simp] theorem fail_bind (msg : String) (f : α → Traced ε β) :
    ((fail msg : Traced ε α) >>= f) = fail msg := rfl

@[simp] theorem lift_ok_bind (a : α) (f : α → Traced ε β) :
    ((lift (.ok a) : Traced ε α) >>= f) = f a := rfl

@[simp] theorem lift_error_bind (msg : String) (f : α → Traced ε β) :
    ((lift (.error msg) : Traced ε α) >>= f) = fail msg := rfl

theorem bind_ok {x : Traced ε α} {a : α} (h : x.result = .ok a) (f : α → Traced ε β) :
    (x >>= f) = { events := x.events ++ (f a).events, result := (f a).result } := by
  change (match x.result with | .ok a => _ | .error e => _) = _
  rw [h]

theorem bind_error {x : Traced ε α} {msg : String} (h : x.result = .error msg)
    (f : α → Traced ε β) : (x >>= f) = { events := x.events, result := .error msg } := by
  change (match x.result with | .ok a => _ | .error e => _) = _
  rw [h]

theorem bind_assoc {γ : Type} (x : Traced ε α) (f : α → Traced ε β) (g : β → Traced ε γ) :
    (x >>= f) >>= g = x >>= fun a => f a >>= g := by
  cases hx : x.result with
  | error msg =>
    have hxf : (x >>= f).result = .error msg := by rw [bind_error hx]
    rw [bind_error hxf, bind_error hx f, bind_error hx (fun a => f a >>= g)]
  | ok a =>
    have hxf : (x >>= f).result = (f a).result := by rw [bind_ok hx]
    rw [bind_ok hx (fun a => f a >>= g)]
    cases hf : (f a).result with
    | error msg => rw [bind_error (hxf.trans hf), bind_error hf, bind_ok hx f]
    | ok b => rw [bind_ok (hxf.trans hf), bind_ok hf, bind_ok hx f, List.append_assoc]

/-- The acts of the first part are the first acts. -/
theorem prefix_bind (x : Traced ε α) (f : α → Traced ε β) : x.events <+: (x >>= f).events := by
  cases h : x.result with
  | ok a => exact ⟨(f a).events, by rw [bind_ok h]⟩
  | error msg => exact ⟨[], by rw [bind_error h, List.append_nil]⟩

/-- One act for each member. -/
theorem forM_emit_events {γ : Type} (xs : List γ) (f : γ → ε) :
    (xs.forM fun c => emit (f c)).events = xs.map f := by
  induction xs with
  | nil => rfl
  | cons c xs ih =>
    change (emit (f c) >>= fun _ => xs.forM fun c => emit (f c)).events = _
    rw [bind_ok (emit_result _), ih]
    rfl

/-! ## Acts that never happen -/

/-- No act of the run has the property. -/
def Never (P : ε → Prop) (x : Traced ε α) : Prop := ∀ e ∈ x.events, ¬ P e

section Never

variable {P : ε → Prop}

theorem never_of_no_events {x : Traced ε α} (h : x.events = []) : Never P x := by
  intro e he
  rw [h] at he
  cases he

theorem never_emit {e : ε} (h : ¬ P e) : Never P (emit e) := by
  intro e' he
  rw [emit_events, List.mem_singleton] at he
  rw [he]
  exact h

theorem never_lift (r : Except String α) : Never P (lift r) := never_of_no_events rfl

theorem never_ok_or (o : Option α) (msg : String) : Never P (ok_or o msg) := by
  cases o <;> exact never_of_no_events rfl

theorem never_ensure (c : Bool) (msg : String) : Never P (ensure c msg) := by
  cases c <;> exact never_of_no_events rfl

theorem never_when {c : Bool} {x : Traced ε Unit} (h : Never P x) : Never P (when c x) := by
  cases c
  · exact never_of_no_events rfl
  · exact h

theorem never_bind {x : Traced ε α} {f : α → Traced ε β} (hx : Never P x)
    (hf : ∀ a, Never P (f a)) : Never P (x >>= f) := by
  intro e he
  cases h : x.result with
  | ok a =>
    rw [bind_ok h] at he
    rcases List.mem_append.mp he with he | he
    · exact hx e he
    · exact hf a e he
  | error msg =>
    rw [bind_error h] at he
    exact hx e he

theorem never_forM {γ : Type} (xs : List γ) (f : γ → Traced ε Unit) (hf : ∀ c, Never P (f c)) :
    Never P (xs.forM f) := by
  induction xs with
  | nil => exact never_of_no_events rfl
  | cons c xs ih => exact never_bind (hf c) (fun _ => ih)

theorem never_map_events {ε' : Type} {Q : ε' → Prop} {f : ε → ε'} {x : Traced ε α} :
    Never Q (x.map_events f) ↔ ∀ e ∈ x.events, ¬ Q (f e) :=
  List.forall_mem_map

theorem never_lift_bind_iff {r : Except String α} {f : α → Traced ε β} :
    Never P (lift r >>= f) ↔ ∀ a, r = .ok a → Never P (f a) := by
  cases r with
  | error msg => exact iff_of_true (never_of_no_events rfl) (by intro a h; cases h)
  | ok a => simp

theorem never_emit_bind_iff {e : ε} {f : Unit → Traced ε β} (h : ¬ P e) :
    Never P (emit e >>= f) ↔ Never P (f ()) := by
  unfold Never
  rw [bind_ok (emit_result e)]
  simp [h]

theorem never_bind_lift_iff {x : Traced ε α} {r : Except String β} :
    Never P (x >>= fun _ => lift r) ↔ Never P x := by
  unfold Never
  cases h : x.result with
  | ok a =>
    rw [bind_ok h]
    simp
  | error msg => rw [bind_error h]

end Never

/-! ## Acts that come after a guard -/

/-- Before each act with `P` there is an act with `G`. -/
def Preceded (G P : ε → Prop) (x : Traced ε α) : Prop :=
  ∀ pre e post, x.events = pre ++ e :: post → P e → ∃ g ∈ pre, G g

section Preceded

variable {G P : ε → Prop}

theorem preceded_of_never {x : Traced ε α} (h : Never P x) : Preceded G P x := by
  intro pre e post heq hP
  refine absurd hP (h e ?_)
  rw [heq]
  exact List.mem_append_right _ List.mem_cons_self

/-- An act without any guard in its run. -/
theorem not_preceded {x : Traced ε α} {e : ε} (he : e ∈ x.events) (hP : P e) (hG : Never G x) :
    ¬ Preceded G P x := by
  intro h
  obtain ⟨pre, post, heq⟩ := List.append_of_mem he
  obtain ⟨g, hg, hGg⟩ := h pre e post heq hP
  refine hG g ?_ hGg
  rw [heq]
  exact List.mem_append_left _ hg

/-- An act of a sequence is one of the first part, or comes after all of them. -/
theorem bind_split {x : Traced ε α} {f : α → Traced ε β} {pre post : List ε} {e : ε}
    (h : (x >>= f).events = pre ++ e :: post) :
    e ∈ x.events ∨
      ∃ a pre', x.result = .ok a ∧ pre = x.events ++ pre' ∧ (f a).events = pre' ++ e :: post := by
  cases hr : x.result with
  | error msg =>
    rw [bind_error hr] at h
    refine Or.inl ?_
    rw [h]
    exact List.mem_append_right _ List.mem_cons_self
  | ok a =>
    rw [bind_ok hr] at h
    rcases List.append_eq_append_iff.mp h with ⟨pre', hpre, hf⟩ | ⟨rest, hx, hrest⟩
    · exact Or.inr ⟨a, pre', rfl, hpre, hf⟩
    · cases rest with
      | nil =>
        rw [List.append_nil] at hx
        exact Or.inr ⟨a, [], rfl, by rw [hx, List.append_nil], hrest.symm⟩
      | cons e' rest =>
        rw [List.cons_append, List.cons.injEq] at hrest
        refine Or.inl ?_
        rw [hx, hrest.1]
        exact List.mem_append_right _ List.mem_cons_self

/-- A first part that does nothing of the kind may stand before. -/
theorem preceded_bind {x : Traced ε α} {f : α → Traced ε β} (hx : Never P x)
    (hf : ∀ a, Preceded G P (f a)) : Preceded G P (x >>= f) := by
  intro pre e post h hP
  rcases bind_split h with he | ⟨a, pre', _, hpre, hfa⟩
  · exact absurd hP (hx e he)
  · obtain ⟨g, hg, hGg⟩ := hf a pre' e post hfa hP
    refine ⟨g, ?_, hGg⟩
    rw [hpre]
    exact List.mem_append_right _ hg

/-- After a guard anything may follow. -/
theorem preceded_bind_of_guard {x : Traced ε α} {f : α → Traced ε β} (hx : Never P x)
    (hg : ∀ a, x.result = .ok a → ∃ g ∈ x.events, G g) : Preceded G P (x >>= f) := by
  intro pre e post h hP
  rcases bind_split h with he | ⟨a, pre', hr, hpre, _⟩
  · exact absurd hP (hx e he)
  · obtain ⟨g, hgx, hGg⟩ := hg a hr
    refine ⟨g, ?_, hGg⟩
    rw [hpre]
    exact List.mem_append_left _ hgx

end Preceded

end Traced
