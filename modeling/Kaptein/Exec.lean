-- A command in a container (`exec` in `exec.rs`): its two streams are read in chunks, and
-- each chunk is made a text of its own.
import Kaptein.Lib.Lossy

open lossy_utf8

namespace kaptein_core.exec

/-- The buffer of a read. -/
def BUFFER : Nat := 4096

/-- What one read gives before the end of a stream. -/
structure Chunk where
  bytes : List UInt8
  nonempty : bytes ≠ []
  fits : bytes.length ≤ BUFFER

/-- The reads of a stream up to its end. -/
abbrev Reads := List (Except String Chunk)

inductive Error where
  | Api (message : String)
  | Internal (message : String)
  deriving DecidableEq

structure AttachParams where
  container : Option String
  stdin : Bool
  stdout : Bool
  stderr : Bool
  tty : Bool

structure Status where
  status : Option String := none
  reason : Option String := none
  message : Option String := none

/-- An attached process: its streams, how its task ends, and what comes on the channel for
the exit status. -/
structure Attached where
  stdout : Option Reads
  stderr : Option Reads
  join : Except String Unit
  status : Option (Option Status)

/-- The loop over one stream. -/
def read_loop (buf : String) : Reads → String × Except Error Unit
  | [] => (buf, .ok ())
  | .error e :: _ => (buf, .error (.Internal e))
  | .ok chunk :: rest => read_loop (buf ++ from_utf8_lossy chunk.bytes) rest

def read_stream : Option Reads → String × Except Error Unit
  | none => ("", .ok ())
  | some reads => read_loop "" reads

/-- A failure of the command itself. -/
def check_status : Option (Option Status) → Except Error Unit
  | some (some status) =>
    if status.status = some "Failure" then
      .error (.Internal ("exec failed (" ++ status.reason.getD "exec failed" ++ "): " ++
        status.message.getD "remote command failed"))
    else .ok ()
  | some none | none => .ok ()

set_option linter.dupNamespace false in
/-- The two streams are read side by side, each into a buffer of its own. -/
def exec (api : String → String → List String → AttachParams → Except String Attached)
    (namespace_ pod : String) (command : List String) (container : Option String) :
    Except Error String := do
  let ap := { container, stdin := false, stdout := true, stderr := true, tty := false }
  let attached ← (api namespace_ pod command ap).mapError .Api
  let (stdout_buf, out_res) := read_stream attached.stdout
  let (stderr_buf, err_res) := read_stream attached.stderr
  out_res
  err_res
  attached.join.mapError .Internal
  check_status attached.status
  pure (stdout_buf ++ stderr_buf)

/-! ## The text of a stream -/

def reads_of (chunks : List Chunk) : Reads := chunks.map .ok

/-- The text that is accumulated for a stream which comes in these chunks. -/
def stream_text (chunks : List Chunk) : String := (read_stream (some (reads_of chunks))).1

/-- The whole stream. -/
def stream_bytes (chunks : List Chunk) : List UInt8 := (chunks.map Chunk.bytes).flatten

theorem read_loop_eq (buf : String) (chunks : List Chunk) :
    read_loop buf (reads_of chunks) =
      (buf ++ String.ofList ((chunks.map Chunk.bytes).flatMap (decode none)), .ok ()) := by
  induction chunks generalizing buf with
  | nil => simp [read_loop, reads_of]
  | cons chunk chunks ih =>
    unfold reads_of at ih ⊢
    rw [List.map_cons, read_loop, ih, List.map_cons, List.flatMap_cons, String.ofList_append,
      String.append_assoc]
    rfl

theorem stream_text_eq (chunks : List Chunk) :
    stream_text chunks = String.ofList ((chunks.map Chunk.bytes).flatMap (decode none)) := by
  unfold stream_text read_stream
  dsimp only
  rw [read_loop_eq, String.empty_append]

theorem stream_text_iff (chunks : List Chunk) :
    stream_text chunks = from_utf8_lossy (stream_bytes chunks) ↔
      Apart (chunks.map Chunk.bytes) := by
  have hnonempty : ∀ bytes ∈ chunks.map Chunk.bytes, bytes ≠ [] :=
    List.forall_mem_map.mpr fun chunk _ => chunk.nonempty
  rw [stream_text_eq, from_utf8_lossy, stream_bytes, String.ofList_inj]
  exact decode_parts_iff hnonempty

/-- Chunks never give less text than their stream. -/
theorem length_stream_text (chunks : List Chunk) :
    (from_utf8_lossy (stream_bytes chunks)).toList.length ≤ (stream_text chunks).toList.length := by
  rw [stream_text_eq, from_utf8_lossy, String.toList_ofList, String.toList_ofList]
  exact length_decode_parts _

/-! ## A command that succeeds -/

/-- The streams come in these chunks, and the command succeeds. -/
def succeeded (out err : List Chunk) : Attached where
  stdout := some (reads_of out)
  stderr := some (reads_of err)
  join := .ok ()
  status := some (some { status := some "Success" })

theorem read_stream_eq (chunks : List Chunk) :
    read_stream (some (reads_of chunks)) = (stream_text chunks, .ok ()) := by
  unfold stream_text read_stream
  dsimp only
  rw [read_loop_eq]

theorem exec_succeeded (namespace_ pod : String) (command : List String)
    (container : Option String) (out err : List Chunk) :
    exec (fun _ _ _ _ => .ok (succeeded out err)) namespace_ pod command container =
      .ok (stream_text out ++ stream_text err) := by
  change (do
    let (stdout_buf, out_res) := read_stream (some (reads_of out))
    let (stderr_buf, err_res) := read_stream (some (reads_of err))
    out_res
    err_res
    pure (stdout_buf ++ stderr_buf) : Except Error String) = _
  rw [read_stream_eq, read_stream_eq]
  rfl

/-- A command gives the text of its two streams exactly when in both no chunk ends inside a
character, or the start of one, that the next chunk goes on with. -/
theorem exec_text_iff (namespace_ pod : String) (command : List String)
    (container : Option String) (out err : List Chunk) :
    exec (fun _ _ _ _ => .ok (succeeded out err)) namespace_ pod command container =
        .ok (from_utf8_lossy (stream_bytes out) ++ from_utf8_lossy (stream_bytes err)) ↔
      Apart (out.map Chunk.bytes) ∧ Apart (err.map Chunk.bytes) := by
  rw [exec_succeeded, ← stream_text_iff, ← stream_text_iff, Except.ok.injEq]
  constructor
  · intro h
    have hlist := congrArg String.toList h
    rw [String.toList_append, String.toList_append] at hlist
    have hlength := congrArg List.length hlist
    rw [List.length_append, List.length_append] at hlength
    have hout := length_stream_text out
    have herr := length_stream_text err
    obtain ⟨hleft, hright⟩ := List.append_inj hlist (by omega)
    exact ⟨String.toList_inj.mp hleft, String.toList_inj.mp hright⟩
  · rintro ⟨hout, herr⟩
    rw [hout, herr]

/-- A text that is cut between its characters is given back as it is. -/
theorem exec_of_text (namespace_ pod : String) (command : List String) (container : Option String)
    {out : List Chunk} {text : String}
    (hbytes : stream_bytes out = text.toList.flatMap String.utf8EncodeChar)
    (hout : Apart (out.map Chunk.bytes)) :
    exec (fun _ _ _ _ => .ok (succeeded out [])) namespace_ pod command container = .ok text := by
  have htext : stream_text out = text := by
    rw [(stream_text_iff out).mpr hout, from_utf8_lossy, hbytes, decode_utf8Encode,
      String.ofList_toList]
  rw [exec_succeeded, htext, stream_text_eq]
  simp

/-- The letter é in two chunks. -/
def cut_letter : List Chunk :=
  [⟨[0xC3], List.cons_ne_nil _ _, Nat.le_of_ble_eq_true rfl⟩,
    ⟨[0xA9], List.cons_ne_nil _ _, Nat.le_of_ble_eq_true rfl⟩]

theorem a_cut_letter_is_lost :
    exec (fun _ _ _ _ => .ok (succeeded cut_letter [])) "default" "web" ["cat", "menu"] none ≠
      .ok (from_utf8_lossy (stream_bytes cut_letter) ++ from_utf8_lossy (stream_bytes [])) := by
  rw [exec_succeeded]
  decide

end kaptein_core.exec
