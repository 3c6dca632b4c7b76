-- Runs of a machine that takes one action after another. A step gives `none`
-- where the machine cannot take the action, and a run ends there.
import Mathlib.Data.List.Basic

namespace runs

variable {σ α : Type*} (step : σ → α → Option σ)

/-- The state after a list of actions. -/
def exec (s : σ) : List α → Option σ
  | [] => some s
  | a :: as => (step s a).bind fun t => exec t as

/-- The property holds in every state of the run, the first one included. -/
def Always (P : σ → Prop) (s : σ) : List α → Prop
  | [] => P s
  | a :: as => P s ∧ ∀ t, step s a = some t → Always P t as

/-- Every action of the run starts in a state that the guard lets it start in. -/
def Guarded (G : σ → α → Prop) (s : σ) : List α → Prop
  | [] => True
  | a :: as => ∀ t, step s a = some t → G s a ∧ Guarded G t as

variable {step}

@[simp] theorem exec_nil (s : σ) : exec step s [] = some s := rfl

theorem exec_cons (s : σ) (a : α) (as : List α) :
    exec step s (a :: as) = (step s a).bind fun t => exec step t as := rfl

theorem exec_append (s : σ) (as bs : List α) :
    exec step s (as ++ bs) = (exec step s as).bind fun t => exec step t bs := by
  induction as generalizing s with
  | nil => rfl
  | cons a as ih =>
    rw [List.cons_append, exec_cons, exec_cons]
    cases step s a with
    | none => rfl
    | some t => exact ih t

/-- Where every action can be undone, a run is undone from its end to its start. -/
theorem exec_undone {inv : α → α} (hinv : ∀ s a t, step s a = some t → step t (inv a) = some s)
    {s t : σ} {as : List α} (h : exec step s as = some t) :
    exec step t (as.reverse.map inv) = some s := by
  induction as generalizing s with
  | nil =>
    cases h
    rfl
  | cons a as ih =>
    obtain ⟨u, hu, hrest⟩ := Option.bind_eq_some_iff.mp h
    rw [List.reverse_cons, List.map_append, exec_append, ih hrest, Option.bind_some]
    exact Option.bind_eq_some_iff.mpr ⟨s, hinv s a u hu, rfl⟩

/-- A property of every state of a run holds in its first state. -/
theorem Always.head {P : σ → Prop} {s : σ} {as : List α} (h : Always step P s as) : P s := by
  cases as with
  | nil => exact h
  | cons a as => exact h.1

theorem Always.mono {P Q : σ → Prop} (hPQ : ∀ s, P s → Q s) {s : σ} {as : List α}
    (h : Always step P s as) : Always step Q s as := by
  induction as generalizing s with
  | nil => exact hPQ s h
  | cons a as ih => exact ⟨hPQ s h.1, fun t ht => ih (h.2 t ht)⟩

/-- A property of every state of a run holds in its last state. -/
theorem Always.last {P : σ → Prop} {s t : σ} {as : List α} (h : Always step P s as)
    (ht : exec step s as = some t) : P t := by
  induction as generalizing s with
  | nil =>
    cases ht
    exact h
  | cons a as ih =>
    obtain ⟨u, hu, hrest⟩ := Option.bind_eq_some_iff.mp ht
    exact ih (h.2 u hu) hrest

/-- The invariant rule, where every step keeps the invariant. -/
theorem Always.of_step {P : σ → Prop} (hstep : ∀ s a t, P s → step s a = some t → P t)
    {s : σ} (hs : P s) (as : List α) : Always step P s as := by
  induction as generalizing s with
  | nil => exact hs
  | cons a as ih => exact ⟨hs, fun t ht => ih (hstep s a t hs ht)⟩

/-- The invariant rule, where the steps keep it under a property of the whole run. -/
theorem Always.of_always {P Q : σ → Prop}
    (hstep : ∀ s a t, P s → Q s → step s a = some t → Q t)
    {s : σ} {as : List α} (h : Always step P s as) (hs : Q s) : Always step Q s as := by
  induction as generalizing s with
  | nil => exact hs
  | cons a as ih => exact ⟨hs, fun t ht => ih (h.2 t ht) (hstep s a t h.1 hs ht)⟩

/-- The invariant rule: what holds at the start and survives each guarded step
holds in every state. -/
theorem Always.of_guarded {P : σ → Prop} {G : σ → α → Prop}
    (hstep : ∀ s a t, P s → G s a → step s a = some t → P t)
    {s : σ} {as : List α} (hs : P s) (hg : Guarded step G s as) : Always step P s as := by
  induction as generalizing s with
  | nil => exact hs
  | cons a as ih =>
    refine ⟨hs, ?_⟩
    intro t ht
    obtain ⟨hga, hgt⟩ := hg t ht
    exact ih (hstep s a t hs hga ht) hgt

/-- An exact guard: where the guarded steps keep an invariant that gives the
property, and every other step breaks the property, the property holds in every
state of a run exactly when the guard lets every step of it start. The run may be
limited to some actions. -/
theorem always_iff_guarded {Inv P : σ → Prop} {G : σ → α → Prop} {A : α → Prop}
    (hP : ∀ s, Inv s → P s)
    (hkeep : ∀ s a t, A a → Inv s → G s a → step s a = some t → Inv t)
    (hbreak : ∀ s a t, A a → Inv s → ¬ G s a → step s a = some t → ¬ P t)
    {s : σ} {as : List α} (hs : Inv s) (hA : ∀ a ∈ as, A a) :
    Always step P s as ↔ Guarded step G s as := by
  induction as generalizing s with
  | nil => exact ⟨fun _ => trivial, fun _ => hP s hs⟩
  | cons a as ih =>
    have ha := hA a List.mem_cons_self
    have has : ∀ b ∈ as, A b := fun b hb => hA b (List.mem_cons_of_mem _ hb)
    constructor
    · intro h t ht
      have hga : G s a := by
        by_contra hn
        exact hbreak s a t ha hs hn ht (h.2 t ht).head
      exact ⟨hga, (ih (hkeep s a t ha hs hga ht) has).mp (h.2 t ht)⟩
    · intro hg
      refine ⟨hP s hs, ?_⟩
      intro t ht
      obtain ⟨hga, hgt⟩ := hg t ht
      exact (ih (hkeep s a t ha hs hga ht) has).mpr hgt

end runs
