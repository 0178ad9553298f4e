import OSaSP.FileServer.Client
import OSaSP.Foundations.Segment

/-!
# Successive calls of `read_line`

The static buffer of the client keeps its position and its length between the
calls.  The unread part of the buffer with the chunks still to come is what
`readLine` works on, so the lines returned are those of the stream, however it
was cut.

Allocations succeed.  A line is therefore shorter than the largest `int`: the
size of a longer one would turn negative, which no allocator grants.
-/

namespace OSaSP
namespace FileServer

open CString LineReader Segment

/-- What `recv` returns when no bytes come any more. -/
inductive Ending
  | closed
  | failed
  deriving DecidableEq

/-- The value of `recv` at the end. -/
def Ending.value : Ending → Int
  | .closed => 0
  | .failed => -1

/-- `read_buffer`, `read_buffer_pos` and `read_buffer_len` with what the
socket still delivers. -/
structure Connection where
  readBuffer : Nat → UInt8
  readBufferPos : Nat
  readBufferLen : Int
  incoming : List Received
  ending : Ending

namespace Connection

/-- The static variables when the client starts. -/
def start (incoming : List Received) (ending : Ending) : Connection where
  readBuffer _ := 0
  readBufferPos := 0
  readBufferLen := 0
  incoming := incoming
  ending := ending

/-- `recv` into `read_buffer`, and the position set back. -/
def recv (connection : Connection) : Connection :=
  match connection.incoming with
  | [] =>
      { connection with
        readBufferPos := 0
        readBufferLen := connection.ending.value }
  | chunk :: incoming =>
      { connection with
        readBuffer := overwrite connection.readBuffer 0 chunk.val
        readBufferPos := 0
        readBufferLen := chunk.val.length
        incoming := incoming }

/-- `read_buffer_pos >= read_buffer_len`. -/
def usedUp (connection : Connection) : Bool :=
  (connection.readBufferPos : Int) ≥ connection.readBufferLen

/-- The buffer when the next byte is taken from it. -/
def refill (connection : Connection) : Connection :=
  if connection.usedUp then connection.recv else connection

/-- `read_buffer[read_buffer_pos++]`: the byte. -/
def byte (connection : Connection) : UInt8 :=
  connection.readBuffer connection.readBufferPos

/-- `read_buffer[read_buffer_pos++]`: the position. -/
def advance (connection : Connection) : Connection :=
  { connection with readBufferPos := connection.readBufferPos + 1 }

/-- The bytes of the buffer not yet read. -/
def ahead (connection : Connection) : List UInt8 :=
  slice connection.readBuffer connection.readBufferPos
    (connection.readBufferLen - connection.readBufferPos).toNat

/-- What `readLine` sees of a connection. -/
def unread (connection : Connection) : ReadBuffer :=
  ⟨connection.ahead, connection.incoming⟩

/-! ## The next byte -/

@[simp] theorem ahead_start (incoming : List Received) (ending : Ending) :
    (start incoming ending).ahead = [] := rfl

theorem ahead_of_usedUp
    {connection : Connection}
    (usedUp : connection.usedUp = true) :
    connection.ahead = [] := by
  have behind : connection.readBufferLen ≤ connection.readBufferPos :=
    of_decide_eq_true usedUp
  rw [ahead, Int.toNat_of_nonpos (by omega), slice_zero]

/-- No call of `recv` leaves a used up buffer, except the last. -/
theorem recv_of_cons
    {connection : Connection}
    {chunk : Received}
    {incoming : List Received}
    (chunks : connection.incoming = chunk :: incoming) :
    connection.recv.usedUp = false ∧
      connection.recv.unread = ⟨chunk.val, incoming⟩ ∧
      0 < connection.recv.readBufferLen := by
  have positive := chunk.property.1
  simp only [recv, chunks, usedUp, unread, ahead]
  refine ⟨?_, ?_, ?_⟩
  · exact decide_eq_false (by omega)
  · rw [Int.ofNat_zero, Int.sub_zero, Int.toNat_natCast, slice_overwrite]
  · exact Int.natCast_pos.mpr positive

/-- At the end `recv` returns no positive value. -/
theorem recv_of_nil
    {connection : Connection}
    (noChunks : connection.incoming = []) :
    connection.recv.readBufferLen ≤ 0 ∧
      connection.recv.unread = ⟨[], []⟩ := by
  simp only [recv, noChunks, unread, ahead]
  cases connection.ending <;> exact ⟨by decide, rfl⟩

/-- While the buffer is not used up its first byte comes next. -/
theorem ahead_eq_cons
    {connection : Connection}
    (available : connection.usedUp = false) :
    connection.ahead = connection.byte :: connection.advance.ahead := by
  have inside : ¬connection.readBufferLen ≤ connection.readBufferPos :=
    of_decide_eq_false available
  obtain ⟨rest, restEq⟩ : ∃ rest : Nat,
      connection.readBufferLen = connection.readBufferPos + (rest + 1) :=
    ⟨(connection.readBufferLen - connection.readBufferPos - 1).toNat,
      by omega⟩
  simp only [ahead, advance, byte, restEq]
  rw [show ((connection.readBufferPos : Int) + (rest + 1) -
      connection.readBufferPos).toNat = rest + 1 by omega,
    show ((connection.readBufferPos : Int) + (rest + 1) -
      (connection.readBufferPos + 1 : Nat)).toNat = rest by omega,
    slice_succ_eq_cons]

/-- Whether `recv` is called and brings no byte. -/
def ends (connection : Connection) : Bool :=
  connection.usedUp && decide (connection.recv.readBufferLen ≤ 0)

theorem eq_nil_of_ends
    {connection : Connection}
    (ends : connection.ends = true) :
    connection.ahead = [] ∧ connection.incoming = [] := by
  obtain ⟨usedUp, last⟩ := Bool.and_eq_true_iff.mp ends
  refine ⟨ahead_of_usedUp usedUp, ?_⟩
  cases chunks : connection.incoming with
  | nil => rfl
  | cons chunk incoming =>
      have positive := (recv_of_cons chunks).2.2
      exact absurd (of_decide_eq_true last) (Int.not_le.mpr positive)

/-- A refill leaves a byte to read, and `readLine` reads on in the new
chunk. -/
theorem refill_of_not_ends
    {connection : Connection}
    (more : ¬connection.ends = true) :
    connection.refill.usedUp = false ∧
      connection.refill.unread.stream = connection.unread.stream ∧
      ∀ out, FileServer.readLine out connection.refill.ahead
          connection.refill.incoming =
        FileServer.readLine out connection.ahead connection.incoming := by
  unfold refill
  cases usedUp : connection.usedUp with
  | false => exact ⟨usedUp, rfl, fun _ => rfl⟩
  | true =>
      rw [if_pos rfl]
      cases chunks : connection.incoming with
      | nil =>
          have last := (recv_of_nil chunks).1
          simp [ends, usedUp, last] at more
      | cons chunk incoming =>
          obtain ⟨available, unreadEq, _⟩ := recv_of_cons chunks
          have aheadEq : connection.recv.ahead = chunk.val :=
            congrArg ReadBuffer.ahead unreadEq
          have incomingEq : connection.recv.incoming = incoming :=
            congrArg ReadBuffer.incoming unreadEq
          refine ⟨available, ?_, ?_⟩
          · rw [unreadEq, unread, ahead_of_usedUp usedUp, chunks]
            rfl
          · intro out
            rw [aheadEq, incomingEq, ahead_of_usedUp usedUp,
              FileServer.readLine.eq_2]

theorem shorter_of_not_ends
    {connection : Connection}
    (more : ¬connection.ends = true) :
    connection.refill.advance.unread.stream.length <
      connection.unread.stream.length := by
  obtain ⟨available, sameStream, _⟩ := refill_of_not_ends more
  rw [← sameStream, unread, unread, ReadBuffer.stream, ReadBuffer.stream,
    ahead_eq_cons available]
  exact Nat.lt_succ_self _

/-- `read_line`, with `out` allocated so far: the block it returns, or `NULL`,
and the static variables afterwards. -/
def readLine
    (out : Option (List UInt8))
    (connection : Connection) : Option (List UInt8) × Connection :=
  if _more : connection.ends then (none, connection.recv)
  else
    if connection.refill.byte = newline then
      (some (out.getD [] ++ [0]), connection.refill.advance)
    else
      readLine (some (out.getD [] ++ [connection.refill.byte]))
        connection.refill.advance
termination_by connection.unread.stream.length
decreasing_by exact shorter_of_not_ends _more

/-- The results of so many successive calls. -/
def readLines : Nat → Connection → List (Option (List UInt8))
  | 0, _ => []
  | calls + 1, connection =>
      (connection.readLine none).1 ::
        readLines calls (connection.readLine none).2

/-! ## The calls read the lines -/

/-- A call returns what `readLine` reads from the unread bytes. -/
theorem readLine_refines
    (out : Option (List UInt8))
    (connection : Connection) :
    match FileServer.readLine (out.getD []) connection.ahead
        connection.incoming with
    | some (line, rest) =>
        (connection.readLine out).1 = some (line ++ [0]) ∧
          (connection.readLine out).2.unread = rest
    | none =>
        (connection.readLine out).1 = none ∧
          (connection.readLine out).2.unread = ⟨[], []⟩ := by
  fun_induction readLine out connection with
  | case1 out connection ends =>
      obtain ⟨noBytes, noChunks⟩ := eq_nil_of_ends ends
      rw [noBytes, noChunks, FileServer.readLine.eq_1]
      exact ⟨rfl, (recv_of_nil noChunks).2⟩
  | case2 out connection more isNewline =>
      obtain ⟨available, _, same⟩ := refill_of_not_ends more
      rw [← same, ahead_eq_cons available, FileServer.readLine.eq_3,
        if_pos isNewline]
      exact ⟨rfl, rfl⟩
  | case3 out connection more notNewline inductionHypothesis =>
      obtain ⟨available, _, same⟩ := refill_of_not_ends more
      rw [← same, ahead_eq_cons available, FileServer.readLine.eq_3,
        if_neg notNewline]
      exact inductionHypothesis

/-- As many entries as are taken need not be followed by more. -/
theorem take_append_replicate_succ
    {Entry : Type}
    (entries : List Entry)
    (last : Entry)
    (count : Nat) :
    (entries ++ List.replicate (count + 1) last).take count =
      (entries ++ List.replicate count last).take count := by
  rw [List.replicate_succ', ← List.append_assoc,
    List.take_append_of_le_length (by simp)]

/-- Whatever the buffer holds, so many calls return the lines of the unread
bytes, and `NULL` from then on. -/
theorem readLines_eq (calls : Nat) (connection : Connection) :
    connection.readLines calls =
      ((lines newline connection.unread.stream).map
          (fun line => some (line ++ [0])) ++
        List.replicate calls none).take calls := by
  induction calls generalizing connection with
  | zero => rfl
  | succ calls inductionHypothesis =>
      have refines := readLine_refines none connection
      rw [readLines]
      cases reads : FileServer.readLine [] connection.ahead
          connection.incoming with
      | none =>
          rw [Option.getD_none, reads] at refines
          have noLines :
              lines newline connection.unread.stream = [] :=
            completed_of_not_mem (readLine_eq_none reads) []
          rw [refines.1, inductionHypothesis, refines.2, noLines,
            List.replicate_succ]
          rfl
      | some result =>
          obtain ⟨line, rest⟩ := result
          rw [Option.getD_none, reads] at refines
          obtain ⟨_, rfl, unseparated, streamEq⟩ := readLine_eq_some reads
          have firstLine : lines newline connection.unread.stream =
              line :: lines newline rest.stream := by
            rw [unread, streamEq]
            exact completed_line unseparated [] rest.stream
          rw [refines.1, inductionHypothesis, refines.2, firstLine,
            List.map_cons, List.cons_append, List.take_succ_cons,
            take_append_replicate_succ]

/-- Successive calls return the lines of the stream as C strings, in order,
and then `NULL`. -/
theorem readLines_start
    (incoming : List Received)
    (ending : Ending)
    (noZero : (0 : UInt8) ∉ (incoming.map Subtype.val).flatten)
    (calls : Nat) :
    ((start incoming ending).readLines calls).map (Option.map stringAt) =
      ((lines newline (incoming.map Subtype.val).flatten).map some ++
        List.replicate calls none).take calls := by
  have streamEq : (start incoming ending).unread.stream =
      (incoming.map Subtype.val).flatten := rfl
  rw [readLines_eq, streamEq, List.map_take, List.map_append,
    List.map_replicate, List.map_map]
  congr 2
  apply List.map_congr_left
  intro line member
  apply congrArg some
  apply stringAt_terminated
  intro zero
  exact noZero (mem_of_mem_lines member zero)

/-- Two lines cut in the middle of the second, with an unterminated last
part. -/
theorem readLines_start_cut :
    ((start [⟨[97, 10, 98], by decide⟩, ⟨[99, 10, 100], by decide⟩]
        .failed).readLines 4).map (Option.map stringAt) =
      [some [97], some [98, 99], none, none] :=
  (readLines_start [⟨[97, 10, 98], by decide⟩, ⟨[99, 10, 100], by decide⟩]
    .failed (by decide) 4).trans (by decide)

end Connection
end FileServer
end OSaSP
