-- What a resource owns (`moat.rs`): the dependents of `blast_radius` beside the closure
-- of the owner references. ReplicaSets, Jobs and Pods are visited one kind after the other.
import Mathlib.Logic.Relation
import Kaptein.Lib.Sweep

open sweep
open scoped List

namespace kaptein_core.moat

structure OwnerReference where
  kind : String
  name : String
  uid : String

/-- The metadata that `blast_radius` reads of an object. -/
structure Item where
  name : Option String := none
  generate_name : Option String := none
  uid : Option String := none
  owner_references : Option (List OwnerReference) := none

def Item.owner_uids (item : Item) : List String :=
  (item.owner_references.getD []).map OwnerReference.uid

def Item.name_any (item : Item) : String := (item.name.or item.generate_name).getD ""

structure BlastRadius where
  namespace_ : String
  kind : String
  name : String
  owners : List String
  dependents : List String

/-- The uids known so far, and the dependents. -/
structure Traversal where
  owned_uids : List String
  dependents : List String

def is_owned (owned_uids : List String) (item : Item) : Bool :=
  item.owner_uids.any fun u => decide (u ∈ owned_uids)

def controller_label (kind : String) (item : Item) : String := kind ++ "/" ++ item.name.getD ""

def pod_label (pod : Item) : String := "Pod/" ++ pod.name_any

def visit (kind : String) (s : Traversal) (item : Item) : Traversal :=
  if is_owned s.owned_uids item then
    { owned_uids := item.uid.toList ++ s.owned_uids
      dependents := s.dependents ++ [controller_label kind item] }
  else s

/-- A kind that is not served is left out. -/
def visit_kind (kind : String) (list : Except String (List Item)) (s : Traversal) : Traversal :=
  match list with
  | .error _ => s
  | .ok items => items.foldl (visit kind) s

def blast_radius (namespace_ : Option String) (kind name : String) (got : Except String Item)
    (replica_sets jobs pods : Except String (List Item)) : Except String BlastRadius := do
  let obj ← got
  let owners := (obj.owner_references.getD []).map fun o => o.kind ++ "/" ++ o.name
  let s : Traversal := { owned_uids := [obj.uid.getD ""], dependents := [] }
  let s := visit_kind "ReplicaSet" replica_sets s
  let s := visit_kind "Job" jobs s
  let pod_list ← pods
  let dependents := s.dependents ++ (pod_list.filter (is_owned s.owned_uids)).map pod_label
  return { namespace_ := namespace_.getD "", kind, name, owners, dependents }

/-! ## Ownership -/

/-- An object with the uid `v` names the owner `u`. -/
def OwnerLink (listed : List Item) (u v : String) : Prop :=
  ∃ x ∈ listed, u ∈ x.owner_uids ∧ x.uid = some v

/-- The uid is that of the target, or of a listed object that the target owns over any
number of links. -/
def OwnedUid (target : Item) (listed : List Item) (u : String) : Prop :=
  ∃ t, target.uid = some t ∧ Relation.ReflTransGen (OwnerLink listed) t u

/-- The target owns the object. -/
abbrev Owned (target : Item) (listed : List Item) (x : Item) : Prop :=
  OwnedIn Item.owner_uids (OwnedUid target listed) x

/-- The labels of all listed objects that the target owns. -/
noncomputable def owned_labels (target : Item) (replica_sets jobs pods : List Item) : List String :=
  let listed := replica_sets ++ jobs ++ pods
  (owned Item.owner_uids (OwnedUid target listed) replica_sets).map
      (controller_label "ReplicaSet") ++
    (owned Item.owner_uids (OwnedUid target listed) jobs).map (controller_label "Job") ++
    (owned Item.owner_uids (OwnedUid target listed) pods).map pod_label

/-- In every order of the lists, the dependents are the owned objects, each once. -/
def IsClosure (target : Item) (replica_sets jobs pods : List Item) : Prop :=
  ∀ namespace_ kind name replica_sets' jobs' pods',
    replica_sets' ~ replica_sets → jobs' ~ jobs → pods' ~ pods →
    ∃ radius, blast_radius namespace_ kind name (.ok target) (.ok replica_sets') (.ok jobs')
        (.ok pods') = .ok radius ∧
      radius.dependents ~ owned_labels target replica_sets jobs pods

/-- Every owned object has an owner that the traversal knows before it comes to its kind. -/
structure OwnedInOrder (target : Item) (replica_sets jobs pods : List Item) : Prop where
  no_uid : target.uid = none → ∀ x ∈ replica_sets ++ jobs ++ pods, "" ∉ x.owner_uids
  owned_replica_sets : ∀ x ∈ replica_sets, Owned target (replica_sets ++ jobs ++ pods) x →
    ∃ u ∈ x.owner_uids, target.uid = some u
  owned_jobs : ∀ x ∈ jobs, Owned target (replica_sets ++ jobs ++ pods) x →
    ∃ u ∈ x.owner_uids, target.uid = some u ∨
      ∃ y ∈ replica_sets, Owned target (replica_sets ++ jobs ++ pods) y ∧ y.uid = some u
  owned_pods : ∀ x ∈ pods, Owned target (replica_sets ++ jobs ++ pods) x →
    ∃ u ∈ x.owner_uids, target.uid = some u ∨
      ∃ y ∈ replica_sets ++ jobs, Owned target (replica_sets ++ jobs ++ pods) y ∧ y.uid = some u

/-! ## One kind -/

/-- The visit of a kind is one sweep. -/
theorem foldl_visit (kind : String) (items : List Item) (s : Traversal) :
    (items.foldl (visit kind) s).dependents = s.dependents ++
        (found Item.owner_uids Item.uid s.owned_uids items).map (controller_label kind) ∧
      ∀ u, u ∈ (items.foldl (visit kind) s).owned_uids ↔ u ∈ s.owned_uids ∨
        ∃ x ∈ found Item.owner_uids Item.uid s.owned_uids items, x.uid = some u := by
  induction items generalizing s with
  | nil => simp [found]
  | cons x items ih =>
    rw [List.foldl_cons, visit, found]
    by_cases hx : is_owned s.owned_uids x = true
    · have hany : (x.owner_uids.any fun u => decide (u ∈ s.owned_uids)) = true := hx
      rw [if_pos hx, if_pos hany]
      obtain ⟨hdependents, huids⟩ := ih
        { owned_uids := x.uid.toList ++ s.owned_uids
          dependents := s.dependents ++ [controller_label kind x] }
      refine ⟨?_, ?_⟩
      · rw [hdependents, List.map_cons, List.append_assoc, List.singleton_append]
      · intro u
        rw [huids, List.mem_append, Option.mem_toList]
        simp only [List.mem_cons, exists_eq_or_imp]
        tauto
    · have hany : ¬(x.owner_uids.any fun u => decide (u ∈ s.owned_uids)) = true := hx
      rw [if_neg hx, if_neg hany]
      exact ih s

/-! ## The three kinds -/

/-- The uids that are known after the objects were found. -/
def known_after (known : List String) (objects : List Item) : List String :=
  objects.filterMap Item.uid ++ known

theorem mem_known_after {known : List String} {objects : List Item} {u : String} :
    u ∈ known_after known objects ↔ (∃ x ∈ objects, x.uid = some u) ∨ u ∈ known := by
  simp [known_after]

section

variable (target : Item) (replica_sets jobs pods : List Item)

def found_replica_sets : List Item :=
  found Item.owner_uids Item.uid [target.uid.getD ""] replica_sets

def known_to_jobs : List String :=
  known_after [target.uid.getD ""] (found_replica_sets target replica_sets)

def found_jobs : List Item :=
  found Item.owner_uids Item.uid (known_to_jobs target replica_sets) jobs

def known_to_pods : List String :=
  known_after (known_to_jobs target replica_sets) (found_jobs target replica_sets jobs)

def found_pods : List Item := pods.filter (is_owned (known_to_pods target replica_sets jobs))

def found_labels : List String :=
  (found_replica_sets target replica_sets).map (controller_label "ReplicaSet") ++
    (found_jobs target replica_sets jobs).map (controller_label "Job") ++
    (found_pods target replica_sets jobs pods).map pod_label

theorem blast_radius_dependents (namespace_ : Option String) (kind name : String) :
    ∃ radius,
      blast_radius namespace_ kind name (.ok target) (.ok replica_sets) (.ok jobs) (.ok pods) =
        .ok radius ∧
      radius.dependents = found_labels target replica_sets jobs pods := by
  refine ⟨_, rfl, ?_⟩
  simp only [visit_kind]
  obtain ⟨hdep₁, huids₁⟩ := foldl_visit "ReplicaSet" replica_sets ⟨[target.uid.getD ""], []⟩
  obtain ⟨hdep₂, huids₂⟩ := foldl_visit "Job" jobs
    (replica_sets.foldl (visit "ReplicaSet") ⟨[target.uid.getD ""], []⟩)
  have hjobs : ∀ u, u ∈ (replica_sets.foldl (visit "ReplicaSet")
      ⟨[target.uid.getD ""], []⟩).owned_uids ↔ u ∈ known_to_jobs target replica_sets := by
    intro u
    rw [huids₁, known_to_jobs, mem_known_after]
    exact or_comm
  have hfound : found Item.owner_uids Item.uid (replica_sets.foldl (visit "ReplicaSet")
      ⟨[target.uid.getD ""], []⟩).owned_uids jobs = found_jobs target replica_sets jobs :=
    found_congr hjobs jobs
  have hpods : is_owned (jobs.foldl (visit "Job") (replica_sets.foldl (visit "ReplicaSet")
      ⟨[target.uid.getD ""], []⟩)).owned_uids =
        is_owned (known_to_pods target replica_sets jobs) := by
    funext x
    have hknown : ∀ u, u ∈ (jobs.foldl (visit "Job") (replica_sets.foldl (visit "ReplicaSet")
        ⟨[target.uid.getD ""], []⟩)).owned_uids ↔ u ∈ known_to_pods target replica_sets jobs := by
      intro u
      rw [huids₂, hfound, hjobs, known_to_pods, mem_known_after]
      exact or_comm
    simp only [is_owned, hknown]
  rw [hdep₂, hdep₁, hfound, hpods]
  rfl

theorem isClosure_iff : IsClosure target replica_sets jobs pods ↔
    ∀ replica_sets' jobs' pods', replica_sets' ~ replica_sets → jobs' ~ jobs → pods' ~ pods →
      found_labels target replica_sets' jobs' pods' ~
        owned_labels target replica_sets jobs pods := by
  constructor
  · intro h replica_sets' jobs' pods' hr hj hp
    obtain ⟨radius, hradius, hperm⟩ := h none "" "" replica_sets' jobs' pods' hr hj hp
    obtain ⟨radius', hradius', hdependents⟩ :=
      blast_radius_dependents target replica_sets' jobs' pods' none "" ""
    rw [hradius, Except.ok.injEq] at hradius'
    rw [← hdependents, ← hradius']
    exact hperm
  · intro h namespace_ kind name replica_sets' jobs' pods' hr hj hp
    obtain ⟨radius, hradius, hdependents⟩ :=
      blast_radius_dependents target replica_sets' jobs' pods' namespace_ kind name
    exact ⟨radius, hradius, by rw [hdependents]; exact h _ _ _ hr hj hp⟩

end

/-! ## A target with a uid -/

section

variable {target : Item} {replica_sets jobs pods : List Item} {t : String}

theorem closed_listed {listed xs : List Item} (hsub : xs ⊆ listed) :
    Closed Item.owner_uids Item.uid (OwnedUid target listed) xs := by
  rintro x hx ⟨u, hu, root, hroot, hpath⟩ v hv
  exact ⟨root, hroot, hpath.tail ⟨x, hsub hx, hu, hv⟩⟩

theorem ownedUid_target {listed : List Item} (ht : target.uid = some t) :
    ∀ u ∈ [target.uid.getD ""], OwnedUid target listed u := by
  intro u hu
  rw [List.mem_singleton, ht] at hu
  rw [hu]
  exact ⟨t, ht, .refl⟩

/-- What is known stays inside the closure. -/
theorem ownedUid_known_after {listed objects : List Item} {known : List String}
    (hsub : objects ⊆ listed) (hknown : ∀ u ∈ known, OwnedUid target listed u)
    (howned : ∀ x ∈ objects, Owned target listed x) :
    ∀ u ∈ known_after known objects, OwnedUid target listed u := by
  intro u hu
  rcases mem_known_after.mp hu with ⟨x, hx, hxu⟩ | hu
  · exact closed_listed hsub x hx (howned x hx) u hxu
  · exact hknown u hu

end

/-- The lists are the given ones in some order. -/
structure Reordered (replica_sets jobs pods replica_sets' jobs' pods' : List Item) : Prop where
  replica_sets : replica_sets' ~ replica_sets
  jobs : jobs' ~ jobs
  pods : pods' ~ pods

section

variable {target : Item} {replica_sets jobs pods replica_sets' jobs' pods' : List Item} {t : String}

theorem Reordered.replica_sets_listed
    (h : Reordered replica_sets jobs pods replica_sets' jobs' pods') :
    replica_sets' ⊆ replica_sets ++ jobs ++ pods := fun _ hx =>
  List.mem_append_left _ (List.mem_append_left _ (h.replica_sets.subset hx))

theorem Reordered.jobs_listed (h : Reordered replica_sets jobs pods replica_sets' jobs' pods') :
    jobs' ⊆ replica_sets ++ jobs ++ pods := fun _ hx =>
  List.mem_append_left _ (List.mem_append_right _ (h.jobs.subset hx))

/-- Each kind finds owned objects only. -/
theorem found_replica_sets_sublist (ht : target.uid = some t)
    (h : Reordered replica_sets jobs pods replica_sets' jobs' pods') :
    (found_replica_sets target replica_sets').Sublist
      (owned Item.owner_uids (OwnedUid target (replica_sets ++ jobs ++ pods)) replica_sets') :=
  found_sublist_owned (closed_listed h.replica_sets_listed) (ownedUid_target ht)

theorem ownedUid_known_to_jobs (ht : target.uid = some t)
    (h : Reordered replica_sets jobs pods replica_sets' jobs' pods') :
    ∀ u ∈ known_to_jobs target replica_sets',
      OwnedUid target (replica_sets ++ jobs ++ pods) u := by
  have hsub := found_replica_sets_sublist ht h
  apply ownedUid_known_after _ (ownedUid_target ht)
  · exact fun x hx => (mem_owned.mp (hsub.subset hx)).2
  · exact fun x hx => h.replica_sets_listed (mem_owned.mp (hsub.subset hx)).1

theorem found_jobs_sublist (ht : target.uid = some t)
    (h : Reordered replica_sets jobs pods replica_sets' jobs' pods') :
    (found_jobs target replica_sets' jobs').Sublist
      (owned Item.owner_uids (OwnedUid target (replica_sets ++ jobs ++ pods)) jobs') :=
  found_sublist_owned (closed_listed h.jobs_listed) (ownedUid_known_to_jobs ht h)

theorem ownedUid_known_to_pods (ht : target.uid = some t)
    (h : Reordered replica_sets jobs pods replica_sets' jobs' pods') :
    ∀ u ∈ known_to_pods target replica_sets' jobs',
      OwnedUid target (replica_sets ++ jobs ++ pods) u := by
  have hsub := found_jobs_sublist ht h
  apply ownedUid_known_after _ (ownedUid_known_to_jobs ht h)
  · exact fun x hx => (mem_owned.mp (hsub.subset hx)).2
  · exact fun x hx => h.jobs_listed (mem_owned.mp (hsub.subset hx)).1

theorem is_owned_iff (known : List String) (x : Item) :
    is_owned known x = true ↔ OwnedIn Item.owner_uids (· ∈ known) x := by
  simp [is_owned, OwnedIn]

theorem found_pods_sublist (ht : target.uid = some t)
    (h : Reordered replica_sets jobs pods replica_sets' jobs' pods') :
    (found_pods target replica_sets' jobs' pods').Sublist
      (owned Item.owner_uids (OwnedUid target (replica_sets ++ jobs ++ pods)) pods') := by
  apply filter_sublist_owned
  intro x hx
  rw [is_owned_iff] at hx
  exact hx.mono (ownedUid_known_to_pods ht h)

/-- When the labels are those of the closure, each kind finds all of its owned objects. -/
theorem found_all (ht : target.uid = some t)
    (h : Reordered replica_sets jobs pods replica_sets' jobs' pods')
    (hlabels : found_labels target replica_sets' jobs' pods' ~
      owned_labels target replica_sets jobs pods) :
    found_replica_sets target replica_sets' =
        owned Item.owner_uids (OwnedUid target (replica_sets ++ jobs ++ pods)) replica_sets' ∧
      found_jobs target replica_sets' jobs' =
        owned Item.owner_uids (OwnedUid target (replica_sets ++ jobs ++ pods)) jobs' ∧
      found_pods target replica_sets' jobs' pods' =
        owned Item.owner_uids (OwnedUid target (replica_sets ++ jobs ++ pods)) pods' := by
  have hr := found_replica_sets_sublist ht h
  have hj := found_jobs_sublist ht h
  have hp := found_pods_sublist ht h
  -- a sublist of the same length is the list
  have hlen := hlabels.length_eq
  simp only [found_labels, owned_labels, List.length_append, List.length_map] at hlen
  rw [← (owned_perm h.replica_sets).length_eq, ← (owned_perm h.jobs).length_eq,
    ← (owned_perm h.pods).length_eq] at hlen
  have hrlen := hr.length_le
  have hjlen := hj.length_le
  have hplen := hp.length_le
  exact ⟨hr.eq_of_length (by omega), hj.eq_of_length (by omega), hp.eq_of_length (by omega)⟩

theorem ownedInOrder_of_isClosure (ht : target.uid = some t)
    (h : IsClosure target replica_sets jobs pods) : OwnedInOrder target replica_sets jobs pods := by
  rw [isClosure_iff] at h
  have hall : ∀ rs js ps, Reordered replica_sets jobs pods rs js ps →
      found_replica_sets target rs =
          owned Item.owner_uids (OwnedUid target (replica_sets ++ jobs ++ pods)) rs ∧
        found_jobs target rs js =
          owned Item.owner_uids (OwnedUid target (replica_sets ++ jobs ++ pods)) js ∧
        found_pods target rs js ps =
          owned Item.owner_uids (OwnedUid target (replica_sets ++ jobs ++ pods)) ps :=
    fun rs js ps hr => found_all ht hr (h rs js ps hr.replica_sets hr.jobs hr.pods)
  have hself : Reordered replica_sets jobs pods replica_sets jobs pods :=
    ⟨.refl _, .refl _, .refl _⟩
  obtain ⟨hself_rs, hself_jobs, hself_pods⟩ := hall _ _ _ hself
  constructor
  · intro hnone
    rw [ht] at hnone
    cases hnone
  · intro x hx hO
    obtain ⟨u, hu, hknown⟩ := known_of_found_eq_owned (closed_listed hself.replica_sets_listed)
      (ownedUid_target ht) (fun ys hys => (hall ys jobs pods ⟨hys, .refl _, .refl _⟩).1) hx hO
    rw [List.mem_singleton, ht] at hknown
    exact ⟨u, hu, by rw [ht, hknown]; rfl⟩
  · intro x hx hO
    obtain ⟨u, hu, hknown⟩ := known_of_found_eq_owned (closed_listed hself.jobs_listed)
      (ownedUid_known_to_jobs ht hself)
      (fun ys hys => (hall replica_sets ys pods ⟨.refl _, hys, .refl _⟩).2.1) hx hO
    refine ⟨u, hu, ?_⟩
    rw [known_to_jobs, mem_known_after, hself_rs, List.mem_singleton, ht] at hknown
    rcases hknown with ⟨y, hy, hyu⟩ | hknown
    · exact .inr ⟨y, (mem_owned.mp hy).1, (mem_owned.mp hy).2, hyu⟩
    · exact .inl (by rw [ht, hknown]; rfl)
  · intro x hx hO
    have hmem : x ∈ found_pods target replica_sets jobs pods := by
      rw [hself_pods]
      exact mem_owned.mpr ⟨hx, hO⟩
    obtain ⟨u, hu, hknown⟩ := (is_owned_iff _ _).mp (List.of_mem_filter hmem)
    refine ⟨u, hu, ?_⟩
    rw [known_to_pods, mem_known_after, hself_jobs, known_to_jobs, mem_known_after, hself_rs,
      List.mem_singleton, ht] at hknown
    rcases hknown with ⟨y, hy, hyu⟩ | ⟨y, hy, hyu⟩ | hknown
    · exact .inr ⟨y, List.mem_append_right _ (mem_owned.mp hy).1, (mem_owned.mp hy).2, hyu⟩
    · exact .inr ⟨y, List.mem_append_left _ (mem_owned.mp hy).1, (mem_owned.mp hy).2, hyu⟩
    · exact .inl (by rw [ht, hknown]; rfl)

theorem isClosure_of_ownedInOrder (ht : target.uid = some t)
    (h : OwnedInOrder target replica_sets jobs pods) : IsClosure target replica_sets jobs pods := by
  rw [isClosure_iff]
  intro rs js ps hr hj hp
  have hre : Reordered replica_sets jobs pods rs js ps := ⟨hr, hj, hp⟩
  have hrs : found_replica_sets target rs =
      owned Item.owner_uids (OwnedUid target (replica_sets ++ jobs ++ pods)) rs := by
    apply found_eq_owned (closed_listed hre.replica_sets_listed) (ownedUid_target ht)
    intro x hx hO
    obtain ⟨u, hu, htu⟩ := h.owned_replica_sets x (hr.subset hx) hO
    have hmem : u ∈ [target.uid.getD ""] := by
      rw [List.mem_singleton, htu]
      rfl
    exact ⟨u, hu, hmem⟩
  have hjs : found_jobs target rs js =
      owned Item.owner_uids (OwnedUid target (replica_sets ++ jobs ++ pods)) js := by
    apply found_eq_owned (closed_listed hre.jobs_listed) (ownedUid_known_to_jobs ht hre)
    intro x hx hO
    obtain ⟨u, hu, hfrom⟩ := h.owned_jobs x (hj.subset hx) hO
    refine ⟨u, hu, ?_⟩
    change u ∈ known_to_jobs target rs
    rw [known_to_jobs, mem_known_after, hrs, List.mem_singleton]
    rcases hfrom with htu | ⟨y, hy, hyO, hyu⟩
    · exact .inr (by rw [htu]; rfl)
    · exact .inl ⟨y, mem_owned.mpr ⟨hr.symm.subset hy, hyO⟩, hyu⟩
  have hps : found_pods target rs js ps =
      owned Item.owner_uids (OwnedUid target (replica_sets ++ jobs ++ pods)) ps := by
    apply filter_eq_owned
    intro x hx
    rw [is_owned_iff]
    refine ⟨fun hknown => hknown.mono (ownedUid_known_to_pods ht hre), ?_⟩
    intro hO
    obtain ⟨u, hu, hfrom⟩ := h.owned_pods x (hp.subset hx) hO
    refine ⟨u, hu, ?_⟩
    change u ∈ known_to_pods target rs js
    rw [known_to_pods, mem_known_after, hjs, known_to_jobs, mem_known_after, hrs,
      List.mem_singleton]
    rcases hfrom with htu | ⟨y, hy, hyO, hyu⟩
    · exact .inr (.inr (by rw [htu]; rfl))
    · rcases List.mem_append.mp hy with hy | hy
      · exact .inr (.inl ⟨y, mem_owned.mpr ⟨hr.symm.subset hy, hyO⟩, hyu⟩)
      · exact .inl ⟨y, mem_owned.mpr ⟨hj.symm.subset hy, hyO⟩, hyu⟩
  unfold found_labels owned_labels
  rw [hrs, hjs, hps]
  exact (((owned_perm hr).map _).append ((owned_perm hj).map _)).append ((owned_perm hp).map _)

end

/-! ## A target without a uid -/

section

variable {target : Item} {replica_sets jobs pods : List Item}

theorem owned_labels_no_uid (hnone : target.uid = none) :
    owned_labels target replica_sets jobs pods = [] := by
  have hno : ∀ listed : List Item, ∀ x, ¬Owned target listed x := by
    rintro listed x ⟨u, _, root, hroot, _⟩
    rw [hnone] at hroot
    cases hroot
  unfold owned_labels
  simp only [owned_eq_nil fun x _ => hno _ x, List.map_nil, List.append_nil]

theorem no_empty_owner_of_isClosure (hnone : target.uid = none)
    (h : IsClosure target replica_sets jobs pods) :
    ∀ x ∈ replica_sets ++ jobs ++ pods, "" ∉ x.owner_uids := by
  intro x hx hempty
  have hlabels :=
    (isClosure_iff target replica_sets jobs pods).mp h _ _ _ (.refl _) (.refl _) (.refl _)
  rw [owned_labels_no_uid hnone, List.perm_nil] at hlabels
  simp only [found_labels, List.append_eq_nil_iff, List.map_eq_nil_iff] at hlabels
  obtain ⟨⟨hr, hj⟩, hp⟩ := hlabels
  have htarget : "" ∈ [target.uid.getD ""] := by
    rw [hnone]
    exact List.mem_singleton_self _
  have hjobs : "" ∈ known_to_jobs target replica_sets := mem_known_after.mpr (.inr htarget)
  have hpods : "" ∈ known_to_pods target replica_sets jobs := mem_known_after.mpr (.inr hjobs)
  rcases List.mem_append.mp hx with hx | hx
  · rcases List.mem_append.mp hx with hx | hx
    · have hmem : x ∈ found_replica_sets target replica_sets :=
        mem_found_of_known hx ⟨"", hempty, htarget⟩
      rw [hr] at hmem
      cases hmem
    · have hmem : x ∈ found_jobs target replica_sets jobs :=
        mem_found_of_known hx ⟨"", hempty, hjobs⟩
      rw [hj] at hmem
      cases hmem
  · have hmem : x ∈ found_pods target replica_sets jobs pods :=
      List.mem_filter.mpr ⟨hx, (is_owned_iff _ _).mpr ⟨"", hempty, hpods⟩⟩
    rw [hp] at hmem
    cases hmem

theorem isClosure_of_no_empty_owner (hnone : target.uid = none)
    (h : ∀ x ∈ replica_sets ++ jobs ++ pods, "" ∉ x.owner_uids) :
    IsClosure target replica_sets jobs pods := by
  have hno : ∀ x ∈ replica_sets ++ jobs ++ pods, ¬OwnedIn Item.owner_uids (· ∈ [""]) x := by
    rintro x hx ⟨u, hu, hempty⟩
    rw [List.mem_singleton] at hempty
    subst hempty
    exact h x hx hu
  have hfound : ∀ xs : List Item, xs ⊆ replica_sets ++ jobs ++ pods →
      found Item.owner_uids Item.uid [""] xs = [] := by
    intro xs hsub
    have hclosed : Closed Item.owner_uids Item.uid (· ∈ [""]) xs :=
      fun x hx hO => absurd hO (hno x (hsub hx))
    have hsublist := found_sublist_owned hclosed fun u hu => hu
    rw [owned_eq_nil fun x hx => hno x (hsub hx), List.sublist_nil] at hsublist
    exact hsublist
  rw [isClosure_iff]
  intro rs js ps hr hj hp
  have hre : Reordered replica_sets jobs pods rs js ps := ⟨hr, hj, hp⟩
  have hrs : found_replica_sets target rs = [] := by
    rw [found_replica_sets, hnone]
    exact hfound rs hre.replica_sets_listed
  have hknown : known_to_jobs target rs = [""] := by
    rw [known_to_jobs, hrs, hnone]
    rfl
  have hjs : found_jobs target rs js = [] := by
    rw [found_jobs, hknown]
    exact hfound js hre.jobs_listed
  have hps : found_pods target rs js ps = [] := by
    rw [found_pods, known_to_pods, hjs, hknown, List.filter_eq_nil_iff]
    intro x hx hknown
    exact hno x (List.mem_append_right _ (hp.subset hx)) ((is_owned_iff _ _).mp hknown)
  rw [owned_labels_no_uid hnone, found_labels, hrs, hjs, hps]
  rfl

end

/-- The dependents are the closure of the owner references in every order of the lists if and
only if every owned object has an owner of an earlier kind, and a target without a uid finds
no owner reference with an empty one. -/
theorem blast_radius_is_closure_iff (target : Item) (replica_sets jobs pods : List Item) :
    IsClosure target replica_sets jobs pods ↔ OwnedInOrder target replica_sets jobs pods := by
  cases ht : target.uid with
  | some t => exact ⟨ownedInOrder_of_isClosure ht, isClosure_of_ownedInOrder ht⟩
  | none =>
    have hno : ∀ listed : List Item, ∀ x, ¬Owned target listed x := by
      rintro listed x ⟨u, _, root, hroot, _⟩
      rw [ht] at hroot
      cases hroot
    constructor
    · intro h
      exact ⟨fun _ => no_empty_owner_of_isClosure ht h, fun x _ hx => absurd hx (hno _ x),
        fun x _ hx => absurd hx (hno _ x), fun x _ hx => absurd hx (hno _ x)⟩
    · intro h
      exact isClosure_of_no_empty_owner ht (h.no_uid ht)

/-- A Job that the target owns, and a ReplicaSet that the Job owns. -/
def chained_job : Item :=
  { name := some "job", uid := some "j", owner_references := some [⟨"App", "app", "t"⟩] }

def chained_replica_set : Item :=
  { name := some "rs", uid := some "r", owner_references := some [⟨"Job", "job", "j"⟩] }

theorem a_replica_set_of_a_job_is_lost :
    ¬IsClosure { uid := some "t" } [chained_replica_set] [chained_job] [] := by
  intro h
  have hlabels := (isClosure_iff _ _ _ _).mp h _ _ _ (.refl _) (.refl _) (.refl _)
  have hfound : found_replica_sets { uid := some "t" } [chained_replica_set] = [] := by
    decide +kernel
  have hlink : OwnerLink ([chained_replica_set] ++ [chained_job] ++ []) "t" "j" :=
    ⟨chained_job, by simp, by decide, rfl⟩
  have howned : Owned { uid := some "t" } ([chained_replica_set] ++ [chained_job] ++ [])
      chained_replica_set := ⟨"j", by decide, "t", rfl, .single hlink⟩
  have hall := (found_all rfl ⟨.refl _, .refl _, .refl _⟩ hlabels).1
  have hmem := mem_owned.mpr ⟨List.mem_singleton_self _, howned⟩
  rw [← hall, hfound] at hmem
  cases hmem

end kaptein_core.moat
