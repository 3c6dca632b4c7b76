-- A list that a server gives page by page, each page but the last with a token for the next one.
-- What a loop over the pages has read when it ends, however the server cuts the list.
import Mathlib.Data.List.Basic

namespace paging

variable {α τ ε σ : Type}

/-- The answer to the call of a number with a token: a page and the token of the next one. -/
abbrev Answers (α τ ε : Type) := Nat → Option τ → Except ε (List α × Option τ)

/-- The loop: a page is taken in, and its token asks for the next. -/
def read_pages (ask : Answers α τ ε) (take_in : σ → List α → σ) :
    (fuel call : Nat) → Option τ → σ → Option (σ × Except ε Unit)
  | 0, _, _, _ => none
  | fuel + 1, call, token, s =>
    match ask call token with
    | .error e => some (s, .error e)
    | .ok (page, some next) =>
      read_pages ask take_in fuel (call + 1) (some next) (take_in s page)
    | .ok (page, none) => some (take_in s page, .ok ())

/-- Each token names what remains of one list, and each page is a first part of it. A call may
fail. -/
def Serves (ask : Answers α τ ε) (items : List α) : Prop :=
  ∃ (rest : Option τ → List α) (ahead : Option τ → Nat), rest none = items ∧
    (∀ call token page, ask call token = .ok (page, none) → rest token = page) ∧
    ∀ call token page next, ask call token = .ok (page, some next) →
      rest token = page ++ rest (some next) ∧ ahead (some next) < ahead token

/-- The calls that a loop from the first call on comes to, where no earlier one fails. -/
inductive Reaches (ask : Answers α τ ε) : Nat → Option τ → Nat → Option τ → Prop
  | start (call : Nat) (token : Option τ) : Reaches ask call token call token
  | next {call call' : Nat} {token token' : Option τ} {page : List α} {next : τ} :
    ask call token = .ok (page, some next) → Reaches ask (call + 1) (some next) call' token' →
      Reaches ask call token call' token'

/-- A call that the loop comes to is answered with the error. -/
def Fails (ask : Answers α τ ε) (call : Nat) (token : Option τ) (e : ε) : Prop :=
  ∃ call' token', Reaches ask call token call' token' ∧ ask call' token' = .error e

variable {ask : Answers α τ ε} {take_in : σ → List α → σ}

theorem fails_of_error {call : Nat} {token : Option τ} {e e' : ε}
    (h : ask call token = .error e) : Fails ask call token e' ↔ e' = e := by
  constructor
  · rintro ⟨_, _, hreaches, herror⟩
    cases hreaches with
    | start =>
      rw [h] at herror
      exact (Except.error.inj herror).symm
    | next hask =>
      rw [h] at hask
      cases hask
  · rintro rfl
    exact ⟨call, token, .start call token, h⟩

theorem not_fails_of_last {call : Nat} {token : Option τ} {page : List α} {e : ε}
    (h : ask call token = .ok (page, none)) : ¬Fails ask call token e := by
  rintro ⟨_, _, hreaches, herror⟩
  cases hreaches with
  | start =>
    rw [h] at herror
    cases herror
  | next hask =>
    rw [h] at hask
    cases hask

theorem fails_of_more {call : Nat} {token : Option τ} {page : List α} {next : τ} {e : ε}
    (h : ask call token = .ok (page, some next)) :
    Fails ask call token e ↔ Fails ask (call + 1) (some next) e := by
  constructor
  · rintro ⟨call', token', hreaches, herror⟩
    cases hreaches with
    | start =>
      rw [h] at herror
      cases herror
    | next hask hrest =>
      rw [h] at hask
      cases hask
      exact ⟨call', token', hrest, herror⟩
  · rintro ⟨call', token', hreaches, herror⟩
    exact ⟨call', token', .next h hreaches, herror⟩

/-- The loop ends, with the error of a call that it came to, if one failed. The pages that it took
in are the list, or a first part of it where a call failed. -/
theorem read_pages_serves {items : List α} (h : Serves ask items) (s : σ) :
    ∃ least, ∀ fuel, least ≤ fuel → ∃ (pages : List (List α)) (result : Except ε Unit),
      read_pages ask take_in fuel 0 none s = some (pages.foldl take_in s, result) ∧
        (∀ e, result = .error e ↔ Fails ask 0 none e) ∧
        pages.flatten <+: items ∧ (result = .ok () → pages.flatten = items) := by
  obtain ⟨rest, ahead, rfl, hlast, hmore⟩ := h
  -- The induction is on the fuel; `ahead` of the token is below it all along.
  have hrest : ∀ fuel call token s, ahead token < fuel →
    ∃ (pages : List (List α)) (result : Except ε Unit),
      read_pages ask take_in fuel call token s = some (pages.foldl take_in s, result) ∧
        (∀ e, result = .error e ↔ Fails ask call token e) ∧
        pages.flatten <+: rest token ∧ (result = .ok () → pages.flatten = rest token) := by
    intro fuel
    induction fuel with
    | zero => exact fun _ _ _ h => absurd h (Nat.not_lt_zero _)
    | succ fuel ih =>
      intro call token s hfuel
      rw [read_pages]
      cases hask : ask call token with
      | error e =>
        refine ⟨[], .error e, rfl, fun e' => ?_, List.nil_prefix, fun h => by cases h⟩
        rw [fails_of_error hask, Except.error.injEq, eq_comm]
      | ok answer =>
        obtain ⟨page, _ | next⟩ := answer
        · have hpage : [page].flatten = rest token := by
            rw [hlast call token page hask, List.flatten_singleton]
          refine ⟨[page], .ok (), rfl, fun e => ?_, hpage ▸ List.prefix_refl _, fun _ => hpage⟩
          exact iff_of_false nofun (not_fails_of_last hask)
        · obtain ⟨hpage, hahead⟩ := hmore call token page next hask
          obtain ⟨pages, result, hread, hfails, hprefix, hall⟩ :=
            ih (call + 1) (some next) (take_in s page) (by omega)
          refine ⟨page :: pages, result, hread, fun e => ?_, ?_, fun hok => ?_⟩
          · exact (hfails e).trans (fails_of_more hask).symm
          · rw [hpage, List.flatten_cons]
            exact List.prefix_append_right_inj page |>.mpr hprefix
          · rw [hpage, List.flatten_cons, hall hok]
  exact ⟨ahead none + 1, fun fuel hfuel => hrest fuel 0 none s hfuel⟩

/-- The items through a function. -/
def Answers.map {β : Type} (f : α → β) (ask : Answers α τ ε) : Answers β τ ε := fun call token =>
  (ask call token).map fun answer => (answer.1.map f, answer.2)

theorem Answers.map_ok {β : Type} {f : α → β} {call : Nat} {token next : Option τ} {page : List β}
    (h : ask.map f call token = .ok (page, next)) :
    ∃ items, ask call token = .ok (items, next) ∧ page = items.map f := by
  unfold Answers.map at h
  cases hask : ask call token with
  | error e =>
    rw [hask] at h
    cases h
  | ok answer =>
    rw [hask] at h
    cases h
    exact ⟨answer.1, rfl, rfl⟩

theorem Answers.map_error {β : Type} {f : α → β} {call : Nat} {token : Option τ} {e : ε} :
    ask.map f call token = .error e ↔ ask call token = .error e := by
  unfold Answers.map
  cases ask call token with
  | error e' => exact ⟨fun h => by cases h; rfl, fun h => by cases h; rfl⟩
  | ok answer => exact iff_of_false nofun nofun

theorem Reaches.map {β : Type} {f : α → β} {call call' : Nat} {token token' : Option τ} :
    Reaches (ask.map f) call token call' token' ↔ Reaches ask call token call' token' := by
  constructor
  · intro h
    induction h with
    | start => exact .start _ _
    | next hask _ ih =>
      obtain ⟨items, hitems, -⟩ := Answers.map_ok hask
      exact .next hitems ih
  · intro h
    induction h with
    | start => exact .start _ _
    | next hask _ ih => exact .next (by rw [Answers.map, hask]; rfl) ih

theorem Fails.map {β : Type} {f : α → β} {call : Nat} {token : Option τ} {e : ε} :
    Fails (ask.map f) call token e ↔ Fails ask call token e := by
  simp only [Fails, Reaches.map, Answers.map_error]

theorem Serves.map {β : Type} {items : List α} (h : Serves ask items) (f : α → β) :
    Serves (ask.map f) (items.map f) := by
  obtain ⟨rest, ahead, rfl, hlast, hmore⟩ := h
  refine ⟨fun token => (rest token).map f, ahead, rfl, ?_, ?_⟩
  · intro call token page hask
    obtain ⟨items, hitems, rfl⟩ := Answers.map_ok hask
    exact congrArg (List.map f) (hlast call token items hitems)
  · intro call token page next hask
    obtain ⟨items, hitems, rfl⟩ := Answers.map_ok hask
    obtain ⟨hrest, hahead⟩ := hmore call token items next hitems
    exact ⟨(congrArg (List.map f) hrest).trans List.map_append, hahead⟩

/-- To take in the pages one by one is to take in their items at once. -/
theorem foldl_take_in (hnil : ∀ s, take_in s [] = s)
    (happend : ∀ s a b, take_in (take_in s a) b = take_in s (a ++ b)) (s : σ)
    (pages : List (List α)) : pages.foldl take_in s = take_in s pages.flatten := by
  induction pages generalizing s with
  | nil => exact (hnil s).symm
  | cons page pages ih => rw [List.foldl_cons, ih, happend, List.flatten_cons]

end paging

