-- What a cluster that differs at sensitive positions only looks like to `kaptein`: the rows of a
-- live plane in every run of its watch loop, and the lines of `kaptein get`. An object is redacted
-- as a Secret only if it carries its kind, which the items of a list may not do.
import Kaptein.Get
import Kaptein.LiveView
import Kaptein.Noninterference

open serde_json kube runs patches kaptein_core.redact kaptein_core.discovery kaptein_viewmodel
open kaptein_core.store (Change)

namespace kaptein_core.redact

/-- An item of a list, which comes with its types or without them. -/
def listed (typed : Bool) (o : DynamicObject) : DynamicObject :=
  if typed then o else { o with types := none }

/-- The objects differ at sensitive positions of their data only. The `data` of a Secret counts
as such where lists give their items with their types. -/
structure LookAlike (typed : Bool) (o o' : DynamicObject) : Prop where
  types : o.types = o'.types
  metadata : o.metadata = o'.metadata
  data : AlikeData (typed && is_secret_kind (kind_of o.types)) o.data o'.data

variable {typed : Bool}

theorem LookAlike.refl (o : DynamicObject) : LookAlike typed o o := ⟨rfl, rfl, .inl (.same _)⟩

theorem LookAlike.listed {o o' : DynamicObject} (h : LookAlike typed o o') :
    LookAlike typed (listed typed o) (listed typed o') := by
  cases typed with
  | true => exact h
  | false => exact ⟨rfl, h.metadata, h.data⟩

theorem LookAlike.redact_eq {o o' : DynamicObject} (h : LookAlike typed o o') :
    redact_object o = redact_object o' := by
  have hdata : AlikeData (is_secret_kind (kind_of o.types)) o.data o'.data := by
    cases typed with
    | true => exact h.data
    | false => exact .inl (AlikeData.alike h.data)
  rw [redact_object_eq_iff o o' h.types hdata, redact_object_metadata, redact_object_metadata,
    h.types, h.metadata]

/-! ## The members that are shown -/

/-- The value of the member is never masked. -/
def Plain (k : String) : Prop :=
  is_sensitive_key k = false ∧ k ≠ "value" ∧ k ≠ "data" ∧ k ≠ "stringData"

theorem Plain.not_masked {k : String} (h : Plain k) {pair : Bool} : ¬MaskedKey pair k := by
  rintro (hkey | ⟨-, hvalue⟩)
  · rw [h.1] at hkey
    cases hkey
  · exact h.2.1 hvalue

theorem AlikeMembers.get_rel {k : String} (hk : Plain k) : ∀ {pair : Bool} {m n : Map},
    AlikeMembers pair m n → Option.Rel AlikeValue (m.get k) (n.get k)
  | _, _, _, .nil _ => .none
  | _, _, _, .masked (k := k') v w hmasked h => by
    have hne : k' ≠ k := by
      rintro rfl
      exact hk.not_masked hmasked
    rw [Map.get_cons, Map.get_cons, if_neg hne, if_neg hne]
    exact h.get_rel hk
  | _, _, _, .kept k' hv h => by
    rw [Map.get_cons, Map.get_cons]
    split_ifs
    · exact .some hv
    · exact h.get_rel hk

theorem AlikeValue.get_rel {k : String} (hk : Plain k) {v w : Value} (h : AlikeValue v w) :
    Option.Rel AlikeValue (v.get k) (w.get k) := by
  cases h with
  | same v =>
    cases v.get k with
    | none => exact .none
    | some u => exact .some (.same u)
  | array _ => exact .none
  | object h => exact h.get_rel hk

theorem AlikeData.get_rel {k : String} (hk : Plain k) {secret : Bool} {v w : Value}
    (h : AlikeData secret v w) : Option.Rel AlikeValue (v.get k) (w.get k) := by
  rcases h with h | ⟨m, n, rfl, rfl, h⟩
  · exact h.get_rel hk
  · show Option.Rel AlikeValue (Map.get m k) (Map.get n k)
    generalize names_sensitive m = pair at h
    induction h with
    | nil => exact .none
    | @cons p q m n hpq _ ih =>
      obtain ⟨k', v⟩ := p
      obtain ⟨_, w⟩ := q
      obtain ⟨rfl, hmember⟩ := hpq
      rw [Map.get_cons, Map.get_cons]
      split_ifs with hkey
      · subst hkey
        rcases hmember with hmasked | hv | ⟨-, hdata, -⟩
        · exact absurd hmasked hk.not_masked
        · exact .some hv
        · rcases hdata with hdata | hdata
          · exact absurd hdata hk.2.2.1
          · exact absurd hdata hk.2.2.2
      · exact ih

theorem plain_status : Plain "status" := by
  refine ⟨?_, by decide, by decide, by decide⟩
  decide +kernel

theorem plain_phase : Plain "phase" := by
  refine ⟨?_, by decide, by decide, by decide⟩
  decide +kernel

theorem phase_eq {a b : Option Value} (h : Option.Rel AlikeValue a b) :
    (a.bind fun s => s.get "phase").bind Value.as_str =
      (b.bind fun s => s.get "phase").bind Value.as_str := by
  cases h with
  | none => rfl
  | some hstatus =>
    have hvalue := hstatus.get_rel plain_phase
    rw [Option.bind_some, Option.bind_some]
    revert hvalue
    generalize Value.get _ "phase" = v, Value.get _ "phase" = w
    rintro (hvalue | _)
    · exact hvalue.as_str
    · rfl

/-- The phase of a pod is no secret, so both have the same summary. -/
theorem LookAlike.summary_eq {o o' : DynamicObject} (h : LookAlike typed o o')
    (gvk : GroupVersionKind) : summary_of o gvk = summary_of o' gvk := by
  have hphase := phase_eq (h.data.get_rel plain_status)
  simp only [summary_of, status_of, DynamicObject.name_any, h.types, h.metadata, hphase]

/-- A workload that reads a password. -/
def workload_with (value : String) : DynamicObject where
  types := some ⟨"apps/v1", "Deployment"⟩
  metadata := { name := some "web" }
  data := .object [env_member value]

theorem workload_with_alike (v w : String) :
    LookAlike typed (workload_with v) (workload_with w) :=
  ⟨rfl, rfl, .inl (.object (.kept "spec" (env_member_alike v w) (.nil _)))⟩

end kaptein_core.redact

namespace kaptein_integration

variable [FloatText] {typed : Bool}

/-- No plane tells two objects apart that are alike, with a lens and with none. -/
theorem map_object_alike (p : LivePlane) {o o' : DynamicObject} (h : LookAlike typed o o') :
    p.map_object o = p.map_object o' := by
  unfold LivePlane.map_object map_object_with
  cases p.lens with
  | none =>
    dsimp only
    rw [h.summary_eq]
  | some vd =>
    dsimp only
    rw [h.redact_eq]

theorem relist_items_alike {items items' : List DynamicObject}
    (h : List.Forall₂ (LookAlike typed) items items') (p : LivePlane) (live_ids : List RowId) :
    p.relist_items live_ids items = p.relist_items live_ids items' := by
  induction h generalizing p live_ids with
  | nil => rfl
  | cons ho _ ih =>
    unfold LivePlane.relist_items
    rw [map_object_alike p ho]
    exact ih _ _

end kaptein_integration

namespace kaptein_integration.live_view

/-! ## The items of a list -/

/-- The items that a list is about to give, with their types or without them. -/
def listed_phase (typed : Bool) : Phase → Phase
  | .Listing pos rest live_ids => .Listing pos (rest.map (listed typed)) live_ids
  | phase => phase

/-- A step of the loop beside a server whose lists give their items with or without types. A watch
gives each object with its own. -/
def listing_step [FloatText] (typed : Bool) (s : System) (a : Action) : Option System :=
  (step s a).map fun t =>
    match a with
    | .List _ => { t with phase := listed_phase typed t.phase }
    | _ => t

/-! ## Two clusters that are alike -/

inductive AlikeChange (typed : Bool) : Change → Change → Prop
  | Added {o o' : DynamicObject} :
    LookAlike typed o o' → AlikeChange typed (.Added o) (.Added o')
  | Modified {o o' : DynamicObject} :
    LookAlike typed o o' → AlikeChange typed (.Modified o) (.Modified o')
  | Deleted {o o' : DynamicObject} :
    LookAlike typed o o' → AlikeChange typed (.Deleted o) (.Deleted o')

variable {typed : Bool}

theorem AlikeChange.refl (c : Change) : AlikeChange typed c c := by
  cases c with
  | Added o => exact .Added (.refl o)
  | Modified o => exact .Modified (.refl o)
  | Deleted o => exact .Deleted (.refl o)

theorem uid_alike {o o' : DynamicObject} (h : LookAlike typed o o') : uid_of o = uid_of o' := by
  simp only [uid_of, DynamicObject.name_any, h.metadata]

theorem AlikeChange.uid {c c' : Change} (h : AlikeChange typed c c') :
    uid_of (object_of c) = uid_of (object_of c') := by
  cases h with
  | Added ho => exact uid_alike ho
  | Modified ho => exact uid_alike ho
  | Deleted ho => exact uid_alike ho

/-- The same happens in both clusters, to objects that are alike. -/
inductive AlikeAction (typed : Bool) : Action → Action → Prop
  | change {c c' : Change} : AlikeChange typed c c' → AlikeAction typed (.Change c) (.Change c')
  | same (a : Action) : AlikeAction typed a a

inductive AlikePhase (typed : Bool) : Phase → Phase → Prop
  | Backoff : AlikePhase typed .Backoff .Backoff
  | Listing (pos : Nat) (live_ids : List RowId) {rest rest' : List DynamicObject} :
    List.Forall₂ (LookAlike typed) rest rest' →
      AlikePhase typed (.Listing pos rest live_ids) (.Listing pos rest' live_ids)
  | Listed (pos : Nat) : AlikePhase typed (.Listed pos) (.Listed pos)
  | Watching (pos : Nat) : AlikePhase typed (.Watching pos) (.Watching pos)
  | Returned (pos : Option Nat) : AlikePhase typed (.Returned pos) (.Returned pos)

structure AlikeSystems (typed : Bool) (s s' : System) : Prop where
  log : List.Forall₂ (AlikeChange typed) s.log s'.log
  plane : s.plane = s'.plane
  granted : s.granted = s'.granted
  phase : AlikePhase typed s.phase s'.phase

/-! ## The objects that exist -/

theorem Orders_alike {log log' : List Change} (h : List.Forall₂ (AlikeChange typed) log log')
    (uids : List String) : Orders uids log ↔ Orders uids log' := by
  refine and_congr_right fun _ => ?_
  induction h with
  | nil => rfl
  | cons hc _ ih => rw [List.forall_mem_cons, List.forall_mem_cons, hc.uid, ih]

theorem update_alike {m m' : String → Option DynamicObject} {o o' : Option DynamicObject}
    (h : ∀ uid, Option.Rel (LookAlike typed) (m uid) (m' uid))
    (ho : Option.Rel (LookAlike typed) o o') (k uid : String) :
    Option.Rel (LookAlike typed) (Function.update m k o uid) (Function.update m' k o' uid) := by
  by_cases hk : uid = k
  · subst hk
    rw [Function.update_self, Function.update_self]
    exact ho
  · rw [Function.update_of_ne hk, Function.update_of_ne hk]
    exact h uid

theorem existing_alike {log log' : List Change} (h : List.Forall₂ (AlikeChange typed) log log')
    (uid : String) : Option.Rel (LookAlike typed) (existing log uid) (existing log' uid) := by
  -- The induction is on the log, over all that may exist before it.
  have hall : ∀ m m' : String → Option DynamicObject,
      (∀ uid, Option.Rel (LookAlike typed) (m uid) (m' uid)) →
        Option.Rel (LookAlike typed)
          (applyAll m ((log.map Change.event).filterMap object_patch) uid)
          (applyAll m' ((log'.map Change.event).filterMap object_patch) uid) := by
    induction h with
    | nil => exact fun m m' hm => hm uid
    | cons hc _ ih =>
      intro m m' hm
      cases hc with
      | Added ho =>
        exact ih _ _ (uid_alike ho ▸ update_alike hm (.some ho) _)
      | Modified ho =>
        exact ih _ _ (uid_alike ho ▸ update_alike hm (.some ho) _)
      | Deleted ho =>
        exact ih _ _ (uid_alike ho ▸ update_alike hm .none _)
  exact hall _ _ fun _ => .none

theorem snapshot_alike {log log' : List Change} (h : List.Forall₂ (AlikeChange typed) log log')
    (uids : List String) :
    List.Forall₂ (LookAlike typed) (snapshot log uids) (snapshot log' uids) := by
  unfold snapshot
  induction uids with
  | nil => exact .nil
  | cons uid uids ih =>
    have huid := existing_alike h uid
    rw [List.filterMap_cons, List.filterMap_cons]
    revert huid
    generalize existing log uid = o, existing log' uid = o'
    rintro (ho | _)
    · exact .cons ho ih
    · exact ih

theorem getElem_alike {log log' : List Change} (h : List.Forall₂ (AlikeChange typed) log log')
    (pos : Nat) : Option.Rel (AlikeChange typed) log[pos]? log'[pos]? := by
  induction h generalizing pos with
  | nil => exact .none
  | cons hc _ ih =>
    cases pos with
    | zero => exact .some hc
    | succ pos => exact ih pos

theorem AlikePhase.listed {phase phase' : Phase} (h : AlikePhase typed phase phase') :
    AlikePhase typed (listed_phase typed phase) (listed_phase typed phase') := by
  cases h with
  | Listing pos live_ids hrest =>
    refine .Listing pos live_ids ?_
    rw [List.forall₂_map_left_iff, List.forall₂_map_right_iff]
    exact hrest.imp fun _ _ ho => ho.listed
  | Backoff => exact .Backoff
  | Listed pos => exact .Listed pos
  | Watching pos => exact .Watching pos
  | Returned pos => exact .Returned pos

section

variable [FloatText]

theorem apply_event_alike {c c' : Change} (h : AlikeChange typed c c') (p : LivePlane) :
    p.apply_event c.event = p.apply_event c'.event := by
  have hevent : p.map_watch_event c.event = p.map_watch_event c'.event := by
    cases h with
    | Added ho => simp only [Change.event, LivePlane.map_watch_event, map_object_alike p ho]
    | Modified ho => simp only [Change.event, LivePlane.map_watch_event, map_object_alike p ho]
    | Deleted ho =>
      simp only [Change.event, LivePlane.map_watch_event, DynamicObject.name_any, ho.metadata]
  unfold LivePlane.apply_event
  rw [hevent]

/-! ## The two loops run alike -/

theorem change_alike {s s' : System} (h : AlikeSystems typed s s') {c c' : Change}
    (hc : AlikeChange typed c c') :
    Option.Rel (AlikeSystems typed) (step s (.Change c)) (step s' (.Change c')) :=
  .some ⟨List.rel_append h.log (.cons hc .nil), h.plane, h.granted, h.phase⟩

theorem list_alike {s s' : System} (h : AlikeSystems typed s s') (uids : List String) :
    Option.Rel (AlikeSystems typed) (step s (.List uids)) (step s' (.List uids)) := by
  obtain ⟨log, plane, granted, phase⟩ := s
  obtain ⟨log', _, _, phase'⟩ := s'
  obtain ⟨hlog, rfl, rfl, hphase⟩ := h
  cases hphase with
  | Backoff =>
    simp only [step]
    by_cases horders : Orders uids log
    · rw [if_pos horders, if_pos ((Orders_alike hlog uids).mp horders)]
      refine .some ⟨hlog, rfl, rfl, ?_⟩
      dsimp only
      rw [hlog.length_eq]
      exact .Listing _ _ (snapshot_alike hlog uids)
    · rw [if_neg horders, if_neg (mt (Orders_alike hlog uids).mpr horders)]
      exact .none
  | _ => exact .none

theorem page_alike {s s' : System} (h : AlikeSystems typed s s') (n : Nat) (more : Bool) :
    Option.Rel (AlikeSystems typed) (step s (.Page n more)) (step s' (.Page n more)) := by
  obtain ⟨log, plane, granted, phase⟩ := s
  obtain ⟨log', _, _, phase'⟩ := s'
  obtain ⟨hlog, rfl, rfl, hphase⟩ := h
  cases hphase with
  | Listing pos live_ids hrest =>
    simp only [step, relist_items_alike (List.forall₂_take n hrest), hrest.length_eq]
    split_ifs
    · exact .some ⟨hlog, rfl, rfl, .Listing _ _ (List.forall₂_drop n hrest)⟩
    · exact .some ⟨hlog, rfl, rfl, .Listed _⟩
    · exact .some ⟨hlog, rfl, rfl, .Returned _⟩
    · exact .none
  | _ => exact .none

theorem deliver_alike {s s' : System} (h : AlikeSystems typed s s') :
    Option.Rel (AlikeSystems typed) (step s .Deliver) (step s' .Deliver) := by
  obtain ⟨log, plane, granted, phase⟩ := s
  obtain ⟨log', _, _, phase'⟩ := s'
  obtain ⟨hlog, rfl, rfl, hphase⟩ := h
  cases hphase with
  | Watching pos =>
    have hc := getElem_alike hlog pos
    simp only [step]
    revert hc
    generalize log[pos]? = c, log'[pos]? = c'
    rintro (hc | _)
    · rw [Option.map_some, Option.map_some, apply_event_alike hc]
      exact .some ⟨hlog, rfl, rfl, .Watching _⟩
    · exact .none
  | _ => exact .none

theorem step_alike {s s' : System} (h : AlikeSystems typed s s') {a a' : Action}
    (ha : AlikeAction typed a a') : Option.Rel (AlikeSystems typed) (step s a) (step s' a') := by
  cases ha with
  | change hc => exact change_alike h hc
  | same a =>
    cases a with
    | Change c => exact change_alike h (.refl c)
    | List uids => exact list_alike h uids
    | Page n more => exact page_alike h n more
    | Deliver => exact deliver_alike h
    | _ =>
      -- The other actions read neither the log nor an object.
      obtain ⟨log, plane, granted, phase⟩ := s
      obtain ⟨log', _, _, phase'⟩ := s'
      obtain ⟨hlog, rfl, rfl, hphase⟩ := h
      cases granted <;> cases hphase <;> first
        | exact .none
        | exact .some ⟨hlog, rfl, rfl, by constructor⟩

theorem listing_step_alike {s s' : System} (h : AlikeSystems typed s s') {a a' : Action}
    (ha : AlikeAction typed a a') :
    Option.Rel (AlikeSystems typed) (listing_step typed s a) (listing_step typed s' a') := by
  have hstep := step_alike h ha
  unfold listing_step
  revert hstep
  generalize step s a = t, step s' a' = t'
  rintro (ht | _)
  · rw [Option.map_some, Option.map_some]
    refine .some ?_
    cases ha with
    | change hc => exact ht
    | same a =>
      cases a with
      | List uids => exact ⟨ht.log, ht.plane, ht.granted, ht.phase.listed⟩
      | _ => exact ht
  · exact .none

theorem exec_alike {s s' : System} (h : AlikeSystems typed s s') {actions actions' : List Action}
    (hactions : List.Forall₂ (AlikeAction typed) actions actions') :
    Option.Rel (AlikeSystems typed) (exec (listing_step typed) s actions)
      (exec (listing_step typed) s' actions') := by
  induction hactions generalizing s s' with
  | nil => exact .some h
  | cons ha _ ih =>
    rw [exec_cons, exec_cons]
    have ht := listing_step_alike h ha
    revert ht
    generalize listing_step typed s _ = t, listing_step typed s' _ = t'
    rintro (ht | _)
    · exact ih ht
    · exact .none

/-- A cluster that differs at sensitive positions only, before the start and in any later change,
runs the loop to the same plane: the same rows, revision and history, and so the same answer to
every query. Where lists give their items without their types, the data of a Secret must not
differ: the loop does not know it for one. -/
theorem secrets_do_not_reach_the_plane (p : LivePlane) (granted : Bool) {log log' : List Change}
    (hlog : List.Forall₂ (AlikeChange typed) log log') {actions actions' : List Action}
    (hactions : List.Forall₂ (AlikeAction typed) actions actions') :
    (exec (listing_step typed) (start p granted log) actions).map System.plane =
      (exec (listing_step typed) (start p granted log') actions').map System.plane := by
  have hstart : AlikeSystems typed (start p granted log) (start p granted log') :=
    ⟨hlog, rfl, rfl, .Backoff⟩
  have hend := exec_alike hstart hactions
  revert hend
  generalize exec (listing_step typed) (start p granted log) actions = t,
    exec (listing_step typed) (start p granted log') actions' = t'
  rintro (ht | _)
  · exact congrArg some ht.plane
  · rfl

end

/-- A view through a lens with one column. -/
def lens_view (kind field : String) : LivePlane where
  mem := mem_plane.MemPlane.new ["shown"]
  gvk := ⟨"", "v1", kind⟩
  namespace_ := none
  lens := some { columns := [{ id := "shown", kind := .Text, field := some field }] }

/-- One object is listed, and is then changed. -/
def one_object_changes (o : DynamicObject) : List Action :=
  [.List ["web", "db"], .Page 1 false, .WatchOpens, .Change (.Modified o), .Deliver]

/-- A password in the environment of a workload is listed without types and then watched with
them, and the plane is that of another password. -/
theorem two_passwords_give_one_plane :
    (@exec _ _ (@listing_step no_doubles false)
      (start (lens_view "Deployment" "spec.env[0].value") true [.Added (workload_with "a")])
      (one_object_changes (workload_with "b"))).map System.plane =
        (@exec _ _ (@listing_step no_doubles false)
          (start (lens_view "Deployment" "spec.env[0].value") true [.Added (workload_with "c")])
          (one_object_changes (workload_with "d"))).map System.plane ∧
      (@exec _ _ (@listing_step no_doubles false)
        (start (lens_view "Deployment" "spec.env[0].value") true [.Added (workload_with "a")])
        (one_object_changes (workload_with "b"))).isSome := by
  refine ⟨?_, rfl⟩
  refine @secrets_do_not_reach_the_plane false no_doubles _ true _ _
    (.cons (.Added (workload_with_alike "a" "c")) .nil) _ _ ?_
  exact .cons (.same _) (.cons (.same _) (.cons (.same _)
    (.cons (.change (.Modified (workload_with_alike "b" "d"))) (.cons (.same _) .nil))))

-- The lens shows the data of a Secret that is listed without its types.
example : (@exec _ _ (@listing_step no_doubles false)
    (start (lens_view "Secret" "data.username") true [.Added (secret_with "a")])
    [.List ["db"], .Page 1 false]).map (fun s => s.plane.mem.rows.map Row.cells) =
      some [[.Text "a"]] := by decide +kernel

end kaptein_integration.live_view

namespace kaptein_cli.get

open kaptein_core kaptein_core.store paging rust_slice
open kaptein_integration (no_doubles)
open kaptein_viewmodel.viewdef (AlphanumericTable ascii_alphanumeric)

/-! ## The lines of `kaptein get` -/

/-- The same error, or answers that are alike. -/
inductive AlikeAnswers {α : Type} (R : α → α → Prop) : Except String α → Except String α → Prop
  | ok {a b : α} : R a b → AlikeAnswers R (.ok a) (.ok b)
  | error (e : String) : AlikeAnswers R (.error e) (.error e)

/-- Two servers that list alike objects, in the same pages. -/
structure AlikeServers {τ : Type} (s s' : ListServer τ) : Prop where
  list : ∀ gvk namespace_ selector, AlikeAnswers (List.Forall₂ (LookAlike true))
    (s.list gvk namespace_ selector) (s'.list gvk namespace_ selector)
  list_metadata : ∀ gvk namespace_ selector limit call token,
    AlikeAnswers (fun a b => List.Forall₂ (LookAlike true) a.1 b.1 ∧ a.2 = b.2)
      (s.list_metadata gvk namespace_ selector limit call token)
      (s'.list_metadata gvk namespace_ selector limit call token)

theorem map_alike {β : Type} {f : DynamicObject → β} (hf : ∀ o o', LookAlike true o o' → f o = f o')
    {objs objs' : List DynamicObject} (h : List.Forall₂ (LookAlike true) objs objs') :
    objs.map f = objs'.map f := by
  induction h with
  | nil => rfl
  | cons ho _ ih => rw [List.map_cons, List.map_cons, hf _ _ ho, ih]

theorem summaries_alike (gvk : GroupVersionKind) {a b : Except String (List DynamicObject)}
    (h : AlikeAnswers (List.Forall₂ (LookAlike true)) a b) :
    (a.map fun items => items.map fun obj => summary_of obj gvk) =
      b.map fun items => items.map fun obj => summary_of obj gvk := by
  cases h with
  | ok h => exact congrArg Except.ok (map_alike (fun _ _ ho => ho.summary_eq gvk) h)
  | error e => rfl

section

variable {τ : Type} {s s' : ListServer τ}

theorem metadata_alike (h : AlikeServers s s') (gvk : GroupVersionKind)
    (namespace_ selector : Option String) (limit : Nat) :
    list_metadata_bounded_with_selector s gvk namespace_ selector limit =
      list_metadata_bounded_with_selector s' gvk namespace_ selector limit := by
  funext call token
  have hmeta : ∀ o o', LookAlike true o o' → summary_of_meta o gvk = summary_of_meta o' gvk := by
    intro o o' ho
    simp only [summary_of_meta, DynamicObject.name_any, ho.metadata]
  have hpage := h.list_metadata gvk namespace_ (labels selector) (max limit 1) call token
  unfold list_metadata_bounded_with_selector Answers.map
  revert hpage
  generalize s.list_metadata _ _ _ _ call token = a, s'.list_metadata _ _ _ _ call token = b
  rintro (⟨hitems, hnext⟩ | e)
  · simp only [Except.map, map_alike hmeta hitems, hnext]
  · rfl

theorem items_alike (h : AlikeServers s s') (env : Env τ) (gvk : GroupVersionKind)
    (opts : Options) (fuel : Nat) :
    items { env with server := s } gvk opts fuel =
      items { env with server := s' } gvk opts fuel := by
  unfold items
  dsimp only
  rw [metadata_alike h, list_with_selector, list_with_selector, kaptein_core.discovery.list,
    kaptein_core.discovery.list, summaries_alike gvk (h.list gvk _ _),
    summaries_alike gvk (h.list gvk _ none)]

variable [FloatText]

theorem print_objects_alike (env : Env τ) (vd : kaptein_viewmodel.lens.ViewDefinition)
    {objs objs' : List DynamicObject} (h : List.Forall₂ (LookAlike true) objs objs') :
    print_objects { env with server := s } vd objs =
      print_objects { env with server := s' } vd objs' := by
  induction h with
  | nil => rfl
  | cons ho _ ih => simp only [print_objects, ho.redact_eq, ih]

variable [AlphanumericTable]

theorem print_lens_alike (h : AlikeServers s s') (env : Env τ) (gvk : GroupVersionKind)
    (opts : Options) (lens_file : String) :
    print_lens { env with server := s } gvk opts lens_file =
      print_lens { env with server := s' } gvk opts lens_file := by
  have hprinted : ∀ vd,
      Output.of (describe.asked (s.list gvk opts.namespace_ (labels opts.selector)))
          (print_objects { env with server := s } vd) =
        Output.of (describe.asked (s'.list gvk opts.namespace_ (labels opts.selector)))
          (print_objects { env with server := s' } vd) := by
    intro vd
    have hlist := h.list gvk opts.namespace_ (labels opts.selector)
    revert hlist
    generalize s.list _ _ _ = a, s'.list _ _ _ = b
    rintro (hobjs | e)
    · exact print_objects_alike env vd hobjs
    · rfl
  simp only [print_lens, list_objects_with_selector, hprinted]

/-- Of two servers whose answers differ at sensitive positions only, `kaptein get` prints the same
and ends the same: as a table, from metadata pages or through a lens, under any options. The data
of a Secret is such a position where the answered object carries its kind. -/
theorem get_prints_no_secret (std : StableSort) (env : Env τ) (h : AlikeServers s s')
    (gvk : GroupVersionKind) (opts : Options) (fuel : Nat) :
    print_get std { env with server := s } gvk opts fuel =
      print_get std { env with server := s' } gvk opts fuel := by
  unfold print_get
  cases opts.lens with
  | none =>
    dsimp only
    rw [items_alike h]
    rfl
  | some lens_file => exact congrArg some (print_lens_alike h env gvk opts lens_file)

end

/-- A server that lists one workload, without its types. -/
def one_workload (value : String) : ListServer Unit where
  list := fun _ _ _ => .ok [listed false (workload_with value)]
  list_metadata := fun _ _ _ _ _ _ => .ok ([listed false (workload_with value)], none)

theorem listed_workload_alike (v w : String) :
    LookAlike true (listed false (workload_with v)) (listed false (workload_with w)) :=
  ⟨rfl, rfl, .inl (.object (.kept "spec" (env_member_alike v w) (.nil _)))⟩

theorem one_workload_alike (v w : String) : AlikeServers (one_workload v) (one_workload w) where
  list := fun _ _ _ => .ok (.cons (listed_workload_alike v w) .nil)
  list_metadata := fun _ _ _ _ _ _ => .ok ⟨.cons (listed_workload_alike v w) .nil, rfl⟩

/-- A lens with one column, the password of a workload. -/
def password_lens_value : Value :=
  .object [("id", .string "com.example.passwords"), ("api_version", kaptein_tui.one),
    ("target", .object [("group", .string "apps"), ("version", .string "v1"),
      ("kind", .string "Deployment")]),
    ("columns", .array [.object [("id", .string "password"),
      ("header_key", .string "extension.password"), ("kind", .string "text"),
      ("sortable", .bool true), ("field", .string "spec.env[0].value")]])]

def lens_file_env (value : String) : Env Unit where
  server := one_workload value
  sys :=
    { no_files with read_to_string := fun _ => .ok "", yaml := fun _ => .ok password_lens_value }
  display := Time.text
  refusal := fun _ => "not asked for"

theorem a_lens_prints_the_marker :
    @print_get _ mergeSort (lens_file_env "a") ⟨"apps", "v1", "Deployment"⟩
        { lens := some "passwords.yaml" } no_doubles ascii_alphanumeric 0 =
      @print_get _ mergeSort (lens_file_env "b") ⟨"apps", "v1", "Deployment"⟩
        { lens := some "passwords.yaml" } no_doubles ascii_alphanumeric 0 ∧
    (@print_get _ mergeSort (lens_file_env "a") ⟨"apps", "v1", "Deployment"⟩
        { lens := some "passwords.yaml" } no_doubles ascii_alphanumeric 0).map Output.stdout =
      some ["[REDACTED]"] := by
  refine ⟨@get_prints_no_secret _ _ _ no_doubles ascii_alphanumeric mergeSort (lens_file_env "a")
    (one_workload_alike "a" "b") ⟨"apps", "v1", "Deployment"⟩
    { lens := some "passwords.yaml" } 0, ?_⟩
  decide +kernel

end kaptein_cli.get
