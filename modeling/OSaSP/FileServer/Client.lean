import OSaSP.FileServer.Session

/-!
# How the client reads an answer

`read_line` collects a line from as many `recv` calls as it takes, so it reads
the lines of the stream however the network cuts it.  The client takes lines
up to the first one that ends with `>` or is `BYE`.
-/

namespace OSaSP
namespace FileServer

open CString LineReader

/-- What one `recv` of the client returns. -/
abbrev Received :=
  { chunk : List UInt8 // 0 < chunk.length ∧ chunk.length ≤ bufSize }

/-- What stands in `read_buffer` and what later `recv` calls return. -/
structure ReadBuffer where
  ahead : List UInt8
  incoming : List Received

/-- All bytes still to be read. -/
def ReadBuffer.stream (buffer : ReadBuffer) : List UInt8 :=
  buffer.ahead ++ (buffer.incoming.map Subtype.val).flatten

/-- `read_line` with `out` read so far; `none` when the bytes run out. -/
def readLine (out : List UInt8) :
    List UInt8 → List Received → Option (List UInt8 × ReadBuffer)
  | [], [] => none
  | [], chunk :: incoming => readLine out chunk.val incoming
  | byte :: ahead, incoming =>
      if byte = newline then some (out, ⟨ahead, incoming⟩)
      else readLine (out ++ [byte]) ahead incoming
termination_by ahead incoming => (incoming.length, ahead.length)

/-- `is_prompt`. -/
def isPrompt (text : List UInt8) : Bool :=
  text.getLast? = some 62

/-- What `handle_server_line` returns: 0, 1 or 2. -/
inductive LineStatus
  | ordinary
  | leave
  | prompt
  deriving DecidableEq

/-- How a line is taken. -/
def lineStatus (line : List UInt8) : LineStatus :=
  if isPrompt line then .prompt
  else if line = ascii "BYE" then .leave
  else .ordinary

/-- The client's variables and what it printed. -/
structure Client where
  buffer : ReadBuffer
  prompt : Option (List UInt8)
  printed : List (List UInt8)

/-- `handle_server_line` once `read_line` has returned a line. -/
def Client.take
    (client : Client)
    (line : List UInt8)
    (rest : ReadBuffer) : LineStatus × Client :=
  (lineStatus line,
    { buffer := rest
      prompt :=
        match lineStatus line with
        | .prompt => some line
        | .leave => none
        | .ordinary => client.prompt
      printed :=
        if isPrompt line then client.printed else client.printed ++ [line] })

/-- `handle_server_line`; `none` when `read_line` has run out of bytes. -/
def handleServerLine (client : Client) : Option (LineStatus × Client) :=
  (readLine [] client.buffer.ahead client.buffer.incoming).map
    fun (line, rest) => client.take line rest

/-! ## Lines of the stream -/

/-- A line that is read stands before the first newline of the stream. -/
theorem readLine_eq_some
    {out ahead line : List UInt8}
    {incoming : List Received}
    {rest : ReadBuffer}
    (reads : readLine out ahead incoming = some (line, rest)) :
    ∃ text, line = out ++ text ∧ newline ∉ text ∧
      ReadBuffer.stream ⟨ahead, incoming⟩ =
        text ++ newline :: rest.stream := by
  fun_induction readLine out ahead incoming with
  | case1 out => cases reads
  | case2 out chunk incoming inductionHypothesis =>
      exact inductionHypothesis reads
  | case3 out ahead incoming =>
      cases reads
      exact ⟨[], (List.append_nil _).symm, List.not_mem_nil, rfl⟩
  | case4 out byte ahead incoming different inductionHypothesis =>
      obtain ⟨text, rfl, unseparated, streamEq⟩ := inductionHypothesis reads
      refine ⟨byte :: text, ?_, ?_, ?_⟩
      · rw [List.append_assoc]
        rfl
      · simp [unseparated, Ne.symm different]
      · exact congrArg (List.cons byte) streamEq

/-- Without a newline no line is read. -/
theorem readLine_eq_none
    {out ahead : List UInt8}
    {incoming : List Received}
    (reads : readLine out ahead incoming = none) :
    newline ∉ ReadBuffer.stream ⟨ahead, incoming⟩ := by
  fun_induction readLine out ahead incoming with
  | case1 out => exact List.not_mem_nil
  | case2 out chunk incoming inductionHypothesis =>
      exact inductionHypothesis reads
  | case3 out ahead incoming => cases reads
  | case4 out byte ahead incoming different inductionHypothesis =>
      have later := inductionHypothesis reads
      rintro (_ | ⟨_, member⟩)
      · exact different rfl
      · exact later member

/-- The first line of the stream is read. -/
theorem handleServerLine_of_stream
    {client : Client}
    {line tail : List UInt8}
    (unseparated : newline ∉ line)
    (streamEq : client.buffer.stream = line ++ newline :: tail) :
    ∃ rest, handleServerLine client = some (client.take line rest) ∧
      rest.stream = tail := by
  cases reads : readLine [] client.buffer.ahead client.buffer.incoming with
  | none =>
      refine absurd ?_ (readLine_eq_none reads)
      change newline ∈ client.buffer.stream
      simp [streamEq]
  | some result =>
      obtain ⟨text, rest⟩ := result
      obtain ⟨_, rfl, textUnseparated, textEq⟩ := readLine_eq_some reads
      obtain ⟨rfl, rfl⟩ := line_unique unseparated textUnseparated
        (streamEq.symm.trans textEq)
      exact ⟨rest, by rw [handleServerLine, reads]; rfl, rfl⟩

theorem handleServerLine_of_empty
    {client : Client}
    (empty : client.buffer.stream = []) :
    handleServerLine client = none := by
  cases reads : readLine [] client.buffer.ahead client.buffer.incoming with
  | none => rw [handleServerLine, reads, Option.map_none]
  | some result =>
      obtain ⟨text, -, -, streamEq⟩ := readLine_eq_some reads
      exact absurd (empty.symm.trans streamEq) (by simp)

theorem handleServerLine_shorter
    {client next : Client}
    {status : LineStatus}
    (handled : handleServerLine client = some (status, next)) :
    next.buffer.stream.length < client.buffer.stream.length := by
  obtain ⟨⟨line, rest⟩, reads, taken⟩ := Option.map_eq_some_iff.mp handled
  obtain ⟨text, -, -, streamEq⟩ := readLine_eq_some reads
  cases taken
  have size := congrArg List.length streamEq
  change client.buffer.stream.length = _ at size
  rw [List.length_append, List.length_cons] at size
  change rest.stream.length < _
  omega

/-- The loop that reads lines up to a prompt or the end of the session, with
the status that ended it, if the bytes did not run out before. -/
def readResponse (client : Client) : Option LineStatus × Client :=
  match _handled : handleServerLine client with
  | none => (none, client)
  | some (.ordinary, next) => readResponse next
  | some (.leave, next) => (some .leave, next)
  | some (.prompt, next) => (some .prompt, next)
termination_by client.buffer.stream.length
decreasing_by exact handleServerLine_shorter _handled

theorem readResponse_of_ordinary
    {client next : Client}
    (handled : handleServerLine client = some (.ordinary, next)) :
    readResponse client = readResponse next := by
  rw [readResponse]
  split <;> simp_all

theorem readResponse_of_not_ordinary
    {client next : Client}
    {status : LineStatus}
    (handled : handleServerLine client = some (status, next))
    (stops : status ≠ .ordinary) :
    readResponse client = (some status, next) := by
  rw [readResponse]
  split <;> simp_all

/-- The lines up to the first one that is not ordinary are read, and no byte
behind it. -/
theorem readResponse_of_stream
    {client : Client}
    {front : List (List UInt8)}
    {last tail : List UInt8}
    (unseparated : ∀ line ∈ front, newline ∉ line)
    (ordinary : ∀ line ∈ front, lineStatus line = .ordinary)
    (lastUnseparated : newline ∉ last)
    (stops : lineStatus last ≠ .ordinary)
    (streamEq : client.buffer.stream =
      unlines newline front ++ (last ++ newline :: tail)) :
    ∃ next, readResponse client = (some (lineStatus last), next) ∧
      next.buffer.stream = tail := by
  induction front generalizing client with
  | nil =>
      obtain ⟨rest, handled, rfl⟩ :=
        handleServerLine_of_stream lastUnseparated streamEq
      exact ⟨_, readResponse_of_not_ordinary handled stops, rfl⟩
  | cons line front inductionHypothesis =>
      rw [List.forall_mem_cons] at unseparated ordinary
      rw [unlines_cons, List.append_assoc, List.cons_append] at streamEq
      obtain ⟨rest, handled, restEq⟩ :=
        handleServerLine_of_stream unseparated.1 streamEq
      rw [Client.take, ordinary.1] at handled
      rw [readResponse_of_ordinary handled]
      exact inductionHypothesis unseparated.2 ordinary.2 restEq

/-- Lines that end with one that is not ordinary: a status is found, and all
bytes are read just when no line before the last is taken for the last. -/
theorem readResponse_unlines
    {client : Client}
    {front : List (List UInt8)}
    {last : List UInt8}
    (unseparated : ∀ line ∈ front ++ [last], newline ∉ line)
    (stops : lineStatus last ≠ .ordinary)
    (streamEq : client.buffer.stream = unlines newline (front ++ [last])) :
    ∃ status next, readResponse client = (some status, next) ∧
      (next.buffer.stream = [] ↔
        ∀ line ∈ front, lineStatus line = .ordinary) ∧
      ((∀ line ∈ front, lineStatus line = .ordinary) →
        status = lineStatus last) := by
  rw [unlines_append, unlines_cons] at streamEq
  by_cases ordinary : ∀ line ∈ front, lineStatus line = .ordinary
  · obtain ⟨next, reads, rest⟩ := readResponse_of_stream
      (fun line member => unseparated line (List.mem_append_left _ member))
      ordinary (unseparated last (by simp)) stops streamEq
    exact ⟨_, next, reads, iff_of_true rest ordinary, fun _ => rfl⟩
  · -- The first line that is not ordinary ends the reading too soon.
    have found :
        (front.find? fun line => lineStatus line ≠ .ordinary).isSome := by
      rw [List.find?_isSome]
      simpa using ordinary
    obtain ⟨line, first⟩ := Option.isSome_iff_exists.mp found
    obtain ⟨early, before, behind, rfl, plain⟩ :=
      List.find?_eq_some_iff_append.mp first
    rw [unlines_append, unlines_cons, List.append_assoc, List.append_assoc,
      List.cons_append] at streamEq
    obtain ⟨next, reads, rest⟩ := readResponse_of_stream
      (fun line member => unseparated line (by simp [member]))
      (by simpa using plain) (unseparated line (by simp))
      (by simpa using early) streamEq
    refine ⟨_, next, reads, iff_of_false ?_ ordinary,
      fun all => absurd all ordinary⟩
    rw [rest]
    simp

end FileServer
end OSaSP
