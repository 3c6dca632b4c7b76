-- Commands that read one cell, change what they read and write it back, with nothing that locks
-- the cell in between. Which changes are in the cell in the end.
import Mathlib.Data.List.Basic
import Mathlib.Data.List.Induction
import Mathlib.Logic.Function.Basic

namespace read_modify_write

inductive Access (ι : Type) where
  | Load (i : ι)
  | Save (i : ι)
  deriving DecidableEq

section

variable {ι : Type}

/-- No command saves between the load and the save of another. -/
def NoOverlap (accesses : List (Access ι)) : Prop :=
  ∀ before i between after, accesses = before ++ .Load i :: between ++ .Save i :: after →
    ∀ j, .Save j ∉ between

/-- A window of the longer schedule that is not one of the shorter ends with the last save. -/
theorem noOverlap_snoc_save {before between : List (Access ι)} {i : ι}
    (hbefore : .Load i ∉ before) (hbetween : .Load i ∉ between) :
    NoOverlap (before ++ .Load i :: between ++ [.Save i]) ↔
      NoOverlap (before ++ .Load i :: between) ∧ ∀ j, .Save j ∉ between := by
  constructor
  · intro h
    refine ⟨?_, h before i between [] rfl⟩
    intro before' i' between' after heq
    exact h before' i' between' (after ++ [.Save i]) (by rw [heq, List.append_assoc]; rfl)
  · rintro ⟨hinner, hlast⟩ before' i' between' after heq
    rcases List.eq_nil_or_concat after with rfl | ⟨after, last, rfl⟩
    · obtain ⟨hinit, hsave⟩ := List.append_inj' heq rfl
      cases hsave
      obtain ⟨-, -, rfl⟩ := (List.append_cons_inj_of_notMem hbefore hbetween).mp hinit
      exact hlast
    · refine hinner before' i' between' after ?_
      rw [List.concat_eq_append, ← List.cons_append, ← List.append_assoc] at heq
      exact (List.append_inj' heq rfl).1

theorem noOverlap_snoc_load {accesses : List (Access ι)} {i : ι} :
    NoOverlap (accesses ++ [.Load i]) ↔ NoOverlap accesses := by
  constructor
  · intro h before' i' between' after heq
    exact h before' i' between' (after ++ [.Load i]) (by rw [heq, List.append_assoc]; rfl)
  · intro h before' i' between' after heq
    rcases List.eq_nil_or_concat after with rfl | ⟨after, last, rfl⟩
    · cases (List.append_inj' heq rfl).2
    · refine h before' i' between' after ?_
      rw [List.concat_eq_append, ← List.cons_append, ← List.append_assoc] at heq
      exact (List.append_inj' heq rfl).1

end

variable {ι σ τ : Type} [DecidableEq ι]

/-- The cell, and what each command read of it. -/
structure Shared (ι σ : Type) where
  content : σ
  held : ι → Option σ

def Shared.start (content : σ) : Shared ι σ := ⟨content, fun _ => none⟩

/-- A command writes back what it read with its change. -/
def Shared.access (change : ι → σ → σ) (s : Shared ι σ) : Access ι → Shared ι σ
  | .Load i => { s with held := Function.update s.held i (some s.content) }
  | .Save i =>
    match s.held i with
    | some v => { s with content := change i v }
    | none => s

def Shared.run (change : ι → σ → σ) (s : Shared ι σ) (accesses : List (Access ι)) :
    Shared ι σ :=
  accesses.foldl (Shared.access change) s

/-- The commands that change a list of names by adding their own. -/
def record (accesses : List (Access ι)) : Shared ι (List ι) :=
  (Shared.start []).run (fun i chain => chain ++ [i]) accesses

/-- The commands whose changes are in the cell, in the order in which they went in. -/
def chain (accesses : List (Access ι)) : List ι := (record accesses).content

/-! ## The cell holds the changes of the chain -/

/-- A function of the content that goes through each change. -/
theorem run_map {change : ι → σ → σ} {change' : ι → τ → τ} {f : σ → τ}
    (hf : ∀ i v, f (change i v) = change' i (f v)) (accesses : List (Access ι))
    (s : Shared ι σ) :
    Shared.run change' ⟨f s.content, fun i => (s.held i).map f⟩ accesses =
      ⟨f (s.run change accesses).content, fun i => ((s.run change accesses).held i).map f⟩ := by
  induction accesses generalizing s with
  | nil => rfl
  | cons access accesses ih =>
    refine Eq.trans ?_ (ih (s.access change access))
    show Shared.run change' (Shared.access change' _ access) accesses = _
    congr 1
    cases access with
    | Load i =>
      simp only [Shared.access, Shared.mk.injEq, true_and]
      funext j
      by_cases h : j = i
      · subst h
        simp
      · simp [Function.update_of_ne h]
    | Save i =>
      cases hheld : s.held i with
      | none => simp [Shared.access, hheld]
      | some v => simp [Shared.access, hheld, hf]

/-- The first content with the changes of some commands. -/
def changed (change : ι → σ → σ) (content : σ) (commands : List ι) : σ :=
  commands.foldl (fun v i => change i v) content

/-- The cell, and all that is held of it, is the first content with the changes of a chain. -/
theorem run_eq (change : ι → σ → σ) (content : σ) (accesses : List (Access ι)) :
    (Shared.start content).run change accesses =
      ⟨changed change content (chain accesses),
        fun i => ((record accesses).held i).map (changed change content)⟩ := by
  have hsnoc : ∀ (i : ι) (chain : List ι),
      changed change content (chain ++ [i]) = change i (changed change content chain) := by
    intro i chain
    rw [changed, List.foldl_append]
    rfl
  exact run_map hsnoc accesses (Shared.start [])

theorem run_snoc (change : ι → σ → σ) (s : Shared ι σ) (accesses : List (Access ι))
    (access : Access ι) :
    s.run change (accesses ++ [access]) = (s.run change accesses).access change access := by
  simp [Shared.run]

/-! ## One access more -/

theorem record_snoc (accesses : List (Access ι)) (access : Access ι) :
    record (accesses ++ [access]) =
      (record accesses).access (fun i chain => chain ++ [i]) access :=
  run_snoc _ _ accesses access

theorem chain_load (accesses : List (Access ι)) (i : ι) :
    chain (accesses ++ [.Load i]) = chain accesses := by
  rw [chain, record_snoc]
  rfl

theorem held_snoc {accesses : List (Access ι)} {access : Access ι} {i : ι}
    (h : access ≠ .Load i) : (record (accesses ++ [access])).held i = (record accesses).held i := by
  rw [record_snoc]
  cases access with
  | Load j =>
    have hne : i ≠ j := by
      rintro rfl
      exact h rfl
    exact Function.update_of_ne hne _ _
  | Save j =>
    simp only [Shared.access]
    split <;> rfl

/-- A command holds what was in the cell when it was last read. -/
theorem held_after_load {before after : List (Access ι)} {i : ι} (h : .Load i ∉ after) :
    (record (before ++ .Load i :: after)).held i = some (chain before) := by
  induction after using List.reverseRecOn with
  | nil =>
    rw [record_snoc]
    exact Function.update_self _ _ _
  | append_singleton after access ih =>
    rw [List.mem_append, not_or, List.mem_singleton] at h
    rw [← List.cons_append, ← List.append_assoc, held_snoc (Ne.symm h.2)]
    exact ih h.1

/-- A save drops what was saved since its own load. -/
theorem chain_save {before after : List (Access ι)} {i : ι} (h : .Load i ∉ after) :
    chain (before ++ .Load i :: after ++ [.Save i]) = chain before ++ [i] := by
  rw [chain, record_snoc, Shared.access, held_after_load h]

/-- Where nothing is saved, nothing changes. -/
theorem chain_of_no_save {before after : List (Access ι)} (h : ∀ i, .Save i ∉ after) :
    chain (before ++ after) = chain before := by
  induction after using List.reverseRecOn with
  | nil => rw [List.append_nil]
  | append_singleton after access ih =>
    simp only [List.mem_append, not_or, List.mem_singleton] at h
    cases access with
    | Load i =>
      rw [← List.append_assoc, chain_load]
      exact ih fun j => (h j).1
    | Save i => exact absurd rfl (h i).2

/-! ## When nothing is lost -/

/-- Each command loads once, and saves once at most, after its load. -/
structure Once (accesses : List (Access ι)) : Prop where
  loads : ∀ i, accesses.count (.Load i) ≤ 1
  saves : ∀ i, accesses.count (.Save i) ≤ 1
  loaded : ∀ before i after, accesses = before ++ .Save i :: after → .Load i ∈ before

/-- The change of each command that saved is in the cell. -/
def AllKept (accesses : List (Access ι)) : Prop :=
  ∀ i, .Save i ∈ accesses → i ∈ chain accesses

theorem Once.init {accesses : List (Access ι)} {access : Access ι}
    (h : Once (accesses ++ [access])) : Once accesses where
  loads i := Nat.le_trans (List.Sublist.count_le _ (List.sublist_append_left _ _)) (h.loads i)
  saves i := Nat.le_trans (List.Sublist.count_le _ (List.sublist_append_left _ _)) (h.saves i)
  loaded before i after heq :=
    h.loaded before i (after ++ [access]) (by rw [heq, List.append_assoc, List.cons_append])

/-- The changes that are in the cell, or in what a command holds, were saved. -/
theorem saved_of_record (accesses : List (Access ι)) :
    (∀ i ∈ (record accesses).content, .Save i ∈ accesses) ∧
      ∀ i chain, (record accesses).held i = some chain → ∀ j ∈ chain, .Save j ∈ accesses := by
  induction accesses using List.reverseRecOn with
  | nil => exact ⟨fun i hi => (List.not_mem_nil hi).elim, fun i chain h => by cases h⟩
  | append_singleton accesses access ih =>
    obtain ⟨hcontent, hheld⟩ := ih
    have hcontent' : ∀ i ∈ (record accesses).content, .Save i ∈ accesses ++ [access] :=
      fun i hi => List.mem_append_left _ (hcontent i hi)
    have hheld' : ∀ i chain, (record accesses).held i = some chain →
        ∀ j ∈ chain, .Save j ∈ accesses ++ [access] :=
      fun i chain h j hj => List.mem_append_left _ (hheld i chain h j hj)
    rw [record_snoc]
    cases access with
    | Load i =>
      refine ⟨hcontent', ?_⟩
      intro j chain h
      by_cases hj : j = i
      · subst hj
        have hchain : (record accesses).content = chain := by simpa [Shared.access] using h
        exact hchain ▸ hcontent'
      · exact hheld' j chain (by simpa [Shared.access, Function.update_of_ne hj] using h)
    | Save i =>
      cases hi : (record accesses).held i with
      | none =>
        simp only [Shared.access, hi]
        exact ⟨hcontent', hheld'⟩
      | some chain =>
        simp only [Shared.access, hi]
        refine ⟨?_, hheld'⟩
        intro j hj
        rcases List.mem_append.mp hj with hj | hj
        · exact hheld' i chain hi j hj
        · rw [List.mem_singleton.mp hj]
          exact List.mem_append_right _ (List.mem_singleton_self _)

theorem saved_of_mem_chain {accesses : List (Access ι)} {i : ι} (hi : i ∈ chain accesses) :
    .Save i ∈ accesses := (saved_of_record accesses).1 i hi

/-- The load of the last save stands in one place. -/
theorem Once.load_of_save {accesses : List (Access ι)} {i : ι}
    (h : Once (accesses ++ [.Save i])) :
    ∃ before between, accesses = before ++ .Load i :: between ∧ .Load i ∉ before ∧
      .Load i ∉ between ∧ .Save i ∉ accesses := by
  obtain ⟨before, between, rfl⟩ := List.append_of_mem (h.loaded accesses i [] rfl)
  have hloads := h.loads i
  have hsaves := h.saves i
  rw [List.count_append, List.count_singleton_self] at hsaves
  simp only [List.count_append, List.count_cons_self] at hloads
  refine ⟨before, between, rfl, ?_, ?_, ?_⟩
  · exact List.count_eq_zero.mp (by omega)
  · exact List.count_eq_zero.mp (by omega)
  · exact List.count_eq_zero.mp (by omega)

/-- No change is lost exactly where no command saves between the load and the save of another. -/
theorem allKept_iff {accesses : List (Access ι)} (h : Once accesses) :
    AllKept accesses ↔ NoOverlap accesses := by
  induction accesses using List.reverseRecOn with
  | nil =>
    refine iff_of_true (fun i hi => (List.not_mem_nil hi).elim) ?_
    intro before i between after heq
    simp at heq
  | append_singleton accesses access ih =>
    specialize ih h.init
    cases access with
    | Load i =>
      rw [noOverlap_snoc_load, ← ih]
      unfold AllKept
      rw [chain_load]
      simp
    | Save i =>
      obtain ⟨before, between, rfl, hbefore, hbetween, hsave⟩ := h.load_of_save
      rw [noOverlap_snoc_save hbefore hbetween, ← ih]
      have hquiet : (∀ j, .Save j ∉ between) →
          chain (before ++ .Load i :: between) = chain before := by
        intro hnone
        exact chain_of_no_save (by simpa using hnone)
      unfold AllKept
      rw [chain_save hbetween]
      constructor
      · intro hall
        have hmem : ∀ j, .Save j ∈ before ++ .Load i :: between → j ∈ chain before := by
          intro j hj
          refine (List.mem_append.mp (hall j (List.mem_append_left _ hj))).resolve_right ?_
          intro hji
          rw [List.mem_singleton.mp hji] at hj
          exact hsave hj
        have hnone : ∀ j, .Save j ∉ between := by
          intro j hj
          have hfirst := saved_of_mem_chain
            (hmem j (List.mem_append_right _ (List.mem_cons_of_mem _ hj)))
          have hcount := h.init.saves j
          rw [List.count_append, List.count_cons_of_ne (by simp)] at hcount
          have h1 := List.count_pos_iff.mpr hfirst
          have h2 := List.count_pos_iff.mpr hj
          omega
        exact ⟨fun j hj => (hquiet hnone).symm ▸ hmem j hj, hnone⟩
      · rintro ⟨hall, hnone⟩ j hj
        rcases List.mem_append.mp hj with hj | hj
        · exact List.mem_append_left _ (hquiet hnone ▸ hall j hj)
        · cases List.mem_singleton.mp hj
          exact List.mem_append_right _ (List.mem_singleton_self _)

end read_modify_write
