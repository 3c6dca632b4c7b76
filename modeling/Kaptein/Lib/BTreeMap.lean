-- The ordered map of the Rust standard library: its entries in the order of
-- their keys, each key once.
import Mathlib.Order.Lattice
import Mathlib.Data.List.Basic
import Mathlib.Tactic.SplitIfs

namespace btree

variable {κ α : Type} [LinearOrder κ]

/-! ## Entries -/

/-- The value of the key is replaced, or the entry is put where its key belongs. -/
def insert_entry (k : κ) (v : α) : List (κ × α) → List (κ × α)
  | [] => [(k, v)]
  | (k', v') :: m =>
    if k < k' then (k, v) :: (k', v') :: m
    else if k = k' then (k, v) :: m
    else (k', v') :: insert_entry k v m

/-- The keys stand in their order, each of them once. -/
def Sorted (m : List (κ × α)) : Prop := (m.map Prod.fst).Pairwise (· < ·)

theorem mem_keys_insert_entry {k k' : κ} {v : α} {m : List (κ × α)} :
    k' ∈ (insert_entry k v m).map Prod.fst ↔ k' = k ∨ k' ∈ m.map Prod.fst := by
  induction m with
  | nil => simp [insert_entry]
  | cons p m ih =>
    obtain ⟨k₁, v₁⟩ := p
    unfold insert_entry
    split_ifs with hlt heq
    · simp
    · subst heq
      simp
    · rw [List.map_cons, List.mem_cons, ih, List.map_cons, List.mem_cons]
      tauto

theorem sorted_insert_entry (k : κ) (v : α) {m : List (κ × α)} (h : Sorted m) :
    Sorted (insert_entry k v m) := by
  induction m with
  | nil => simp [insert_entry, Sorted]
  | cons p m ih =>
    obtain ⟨k₁, v₁⟩ := p
    have hm := List.pairwise_cons.mp h
    unfold insert_entry
    split_ifs with hlt heq
    · refine List.pairwise_cons.mpr ⟨fun k' hk' => ?_, h⟩
      rcases List.mem_cons.mp hk' with rfl | hk'
      · exact hlt
      · exact lt_trans hlt (hm.1 k' hk')
    · subst heq
      exact h
    · refine List.pairwise_cons.mpr ⟨fun k' hk' => ?_, ih hm.2⟩
      rcases mem_keys_insert_entry.mp hk' with rfl | hk'
      · exact lt_of_le_of_ne (not_lt.mp hlt) (Ne.symm heq)
      · exact hm.1 k' hk'

theorem sorted_foldl_insert_entry (es : List (κ × α)) {m : List (κ × α)} (h : Sorted m) :
    Sorted (es.foldl (fun m p => insert_entry p.1 p.2 m) m) := by
  induction es generalizing m with
  | nil => exact h
  | cons p es ih => exact ih (sorted_insert_entry p.1 p.2 h)

/-- A key behind all others goes to the end. -/
theorem insert_entry_last (k : κ) (v : α) (m : List (κ × α))
    (h : ∀ k' ∈ m.map Prod.fst, k' < k) : insert_entry k v m = m ++ [(k, v)] := by
  induction m with
  | nil => rfl
  | cons p m ih =>
    obtain ⟨k', v'⟩ := p
    rw [List.map_cons, List.forall_mem_cons] at h
    rw [insert_entry, if_neg (lt_asymm h.1), if_neg (ne_of_gt h.1), ih h.2]
    rfl

theorem foldl_insert_entry_of_sorted (m es : List (κ × α)) (h : Sorted (m ++ es)) :
    es.foldl (fun m p => insert_entry p.1 p.2 m) m = m ++ es := by
  induction es generalizing m with
  | nil => exact (List.append_nil m).symm
  | cons p es ih =>
    have hsplit : Sorted (m ++ [(p.1, p.2)] ++ es) := by
      rwa [List.append_assoc]
    have hlast : ∀ k' ∈ m.map Prod.fst, k' < p.1 := by
      rw [Sorted, List.map_append, List.pairwise_append] at h
      exact fun k' hk' => h.2.2 k' hk' p.1 List.mem_cons_self
    rw [List.foldl_cons, insert_entry_last _ _ _ hlast, ih _ hsplit, List.append_assoc]
    rfl

theorem lookup_cons (k k' : κ) (v : α) (m : List (κ × α)) :
    ((k, v) :: m).lookup k' = if k' = k then some v else m.lookup k' := by
  rw [List.lookup_cons]
  by_cases h : k' = k
  · simp [h]
  · rw [if_neg h, beq_eq_false_iff_ne.mpr h]

theorem lookup_insert_entry (k k' : κ) (v : α) (m : List (κ × α)) :
    (insert_entry k v m).lookup k' = if k' = k then some v else m.lookup k' := by
  induction m with
  | nil => exact lookup_cons k k' v []
  | cons p m ih =>
    obtain ⟨k₁, v₁⟩ := p
    rw [insert_entry]
    by_cases hlt : k < k₁
    · rw [if_pos hlt, lookup_cons]
    · rw [if_neg hlt]
      by_cases heq : k = k₁
      · subst heq
        rw [if_pos rfl, lookup_cons, lookup_cons]
        by_cases hk : k' = k
        · rw [if_pos hk, if_pos hk]
        · rw [if_neg hk, if_neg hk, if_neg hk]
      · rw [if_neg heq, lookup_cons, lookup_cons, ih]
        by_cases hk : k' = k₁
        · subst hk
          rw [if_pos rfl, if_neg (Ne.symm heq), if_pos rfl]
        · rw [if_neg hk, if_neg hk]

end btree

open btree

/-- An ordered map cannot be built out of order. -/
structure BTreeMap (κ α : Type) [LinearOrder κ] where
  entries : List (κ × α)
  sorted : Sorted entries

namespace BTreeMap

variable {κ α : Type} [LinearOrder κ]

def empty : BTreeMap κ α where
  entries := []
  sorted := List.Pairwise.nil

def insert (m : BTreeMap κ α) (k : κ) (v : α) : BTreeMap κ α where
  entries := insert_entry k v m.entries
  sorted := sorted_insert_entry k v m.sorted

def get (m : BTreeMap κ α) (k : κ) : Option α := m.entries.lookup k

def keys (m : BTreeMap κ α) : List κ := m.entries.map Prod.fst

def values (m : BTreeMap κ α) : List α := m.entries.map Prod.snd

/-- The entries of a list, put in one after the other. -/
def from_entries (es : List (κ × α)) : BTreeMap κ α := es.foldl (fun m p => m.insert p.1 p.2) empty

theorem keys_sorted (m : BTreeMap κ α) : m.keys.Pairwise (· < ·) := m.sorted

@[simp] theorem get_insert (m : BTreeMap κ α) (k k' : κ) (v : α) :
    (m.insert k v).get k' = if k' = k then some v else m.get k' := lookup_insert_entry k k' v _

@[simp] theorem mem_keys_insert (m : BTreeMap κ α) (k k' : κ) (v : α) :
    k' ∈ (m.insert k v).keys ↔ k' = k ∨ k' ∈ m.keys := mem_keys_insert_entry

theorem foldl_insert_entries (m : BTreeMap κ α) (es : List (κ × α)) :
    (es.foldl (fun m p => m.insert p.1 p.2) m).entries =
      es.foldl (fun m p => insert_entry p.1 p.2 m) m.entries := by
  induction es generalizing m with
  | nil => rfl
  | cons p es ih => exact ih _

/-- Entries in order are the entries of their map. -/
theorem from_entries_of_sorted {es : List (κ × α)} (h : Sorted es) :
    (from_entries es).entries = es := by
  rw [from_entries, foldl_insert_entries]
  exact foldl_insert_entry_of_sorted [] es h

end BTreeMap
