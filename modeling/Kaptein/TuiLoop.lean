-- The event loop of the terminal frontend, one read of the plane at a time. The
-- watch task writes its patches to the plane wherever the loop stands.
import Kaptein.Lib.Runs
import Kaptein.Tui

open runs rust_slice windows kaptein_viewmodel kaptein_viewmodel.mem_plane kaptein_viewmodel.fuzzy

namespace kaptein_tui

/-- A frame takes the height of the table from the terminal. Its head and its
borders take three lines. -/
def State.draw (s : State) (height : Nat) : State := { s with page_height := max (height - 3) 1 }

section

variable (std : StableSort) [TimestampText]

/-- The next part of the loop, up to the next read of the plane. -/
def advance (cluster : Cluster) (l : Loop) : Loop :=
  let s := l.state
  match l.phase with
  | .InitialQuery => ⟨s.show std 0 s.page_height, .InitialRevision⟩
  | .InitialRevision =>
    ⟨{ s with
        actions := preflight_actions_for cluster s.kind s.namespace_
        last_revision := s.plane.revision }, .Top⟩
  | .Top =>
    if s.jump_query.isNone && s.palette_query.isNone then
      let rev := s.plane.revision
      if rev ≠ s.last_revision then ⟨s, .Refresh rev⟩ else ⟨s, .Draw⟩
    else ⟨s, .Draw⟩
  | .Refresh rev => ⟨{ s.requery_and_assign std with last_revision := rev }, .Draw⟩
  | .TopQuery => ⟨s.to_top.show std 0 s.page_height, .ReadRevision⟩
  | .ReadRevision =>
    ⟨{ s with
        last_revision := s.plane.revision
        detail := none
        actions := preflight_actions_for cluster s.kind s.namespace_ }, .Top⟩
  | .PaletteQuery => ⟨s.palette_rows std, .Top⟩
  | .JumpWindow => ⟨s.show std s.scroll (s.scroll + s.page_height), .Top⟩
  | .Draw | .Poll | .Quit => l

/-- The rest of the work for one key, when nothing comes between its parts. -/
def Loop.settle (cluster : Cluster) (l : Loop) : Loop :=
  match l.phase with
  | .TopQuery => advance std cluster (advance std cluster l)
  | .PaletteQuery | .JumpWindow => advance std cluster l
  | _ => l

/-- The loop before its first query. -/
def start (kinds : Kinds) (cluster : Cluster) : Except String Loop := do
  let s ← rebuild_plane cluster { kind := kinds.first, plane := new_plane kinds.first }
  pure ⟨s, .InitialQuery⟩

/-! ## The loop beside the watch task -/

inductive Event where
  | Patch (w : Write)
  | Advance (cluster : Cluster)
  | Draw (height : Nat)
  | Press (cluster : Cluster) (key : Key)
  | Timeout

/-- A patch can come anywhere. A failed request of a key ends the loop. -/
def Loop.step [UppercaseTable] (kinds : Kinds) (l : Loop) : Event → Option Loop
  | .Patch w => some { l with state := { l.state with plane := l.state.plane.write w } }
  | .Advance cluster =>
    match l.phase with
    | .Draw | .Poll | .Quit => none
    | _ => some (advance std cluster l)
  | .Draw height => if l.phase = .Draw then some ⟨l.state.draw height, .Poll⟩ else none
  | .Press cluster key =>
    if l.phase = .Poll then (press std kinds cluster key l.state).toOption else none
  | .Timeout => if l.phase = .Poll then some { l with phase := .Top } else none

end

end kaptein_tui
