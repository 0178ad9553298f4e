import OSaSP.FileServer.Client

/-!
# The client and its session

The client takes an answer for read at the first line that is a prompt or
`BYE`.  Both travel among the lines of the answer, so client and server keep
in turn as long as no line that the users chose looks like them: the text of
an `ECHO`, an entry of a `LIST`, or a directory with a newline in its name.

`send_cmd` sends the command and then its newline.  All that is said here is
about dialogues in which both reach the server in one chunk.
-/

namespace OSaSP
namespace FileServer

open CString LineReader

/-- The session of the server and the client that waits for the user. -/
structure Dialogue where
  server : Session
  client : Client
  inSession : Bool

/-- What the client makes of the lines it read; without a status it waits for
more bytes until the server hangs up. -/
def Dialogue.proceed (dialogue : Dialogue) :
    Option LineStatus × Client → Option Dialogue
  | (none, client) =>
      if dialogue.server.running then none
      else
        some { dialogue with
          client := { client with prompt := none }, inSession := false }
  | (some .leave, client) =>
      some { dialogue with client := client, inSession := false }
  | (some .prompt, client) | (some .ordinary, client) =>
      some { dialogue with client := client }

/-- The client reads up to the next prompt. -/
def Dialogue.read (dialogue : Dialogue) : Option Dialogue :=
  dialogue.proceed (readResponse dialogue.client)

/-- The client reads one line. -/
def Dialogue.readOne (dialogue : Dialogue) : Option Dialogue :=
  match handleServerLine dialogue.client with
  | none => dialogue.proceed (none, dialogue.client)
  | some (status, client) => dialogue.proceed (some status, client)

/-- Bytes on their way to the client. -/
def Client.receive (client : Client) (chunks : List Received) : Client :=
  { client with
    buffer := { client.buffer with
      incoming := client.buffer.incoming ++ chunks } }

/-- A command with the pieces in which its answer arrives, a line that the
client did not ask for, or the end of the connection. -/
inductive DialogueEvent
  | command (cmd : List UInt8) (chunks : List Received)
  | unsolicited
  | hangUp

/-- A command as it stands in `line_buffer`. -/
def IsCommandLine (cmd : List UInt8) : Prop :=
  0 < cmd.length ∧ newline ∉ cmd ∧ 0 ∉ cmd

instance : DecidablePred IsCommandLine :=
  fun _ => inferInstanceAs (Decidable (_ ∧ _))

/-- One round of the client's main loop; a command and its newline, which
`send_cmd` sends one after the other, reach the server in one chunk. -/
def dialogueStep
    (tree : FileTree)
    (root : List UInt8)
    (dialogue : Dialogue) : DialogueEvent → Option Dialogue
  | .command cmd chunks =>
      if dialogue.inSession ∧ IsCommandLine cmd then
        if dialogue.server.running then
          match sessionStep tree root dialogue.server
              (.received (cmd ++ [newline])) with
          | none => none
          | some server =>
              if server.sent =
                  dialogue.server.sent ++ (chunks.map Subtype.val).flatten then
                Dialogue.read { dialogue with
                  server := server, client := dialogue.client.receive chunks }
              else none
        else dialogue.read
      else none
  | .unsolicited =>
      if dialogue.inSession ∧ (dialogue.client.buffer.stream ≠ [] ∨
          dialogue.server.running = false) then
        dialogue.readOne
      else none
  | .hangUp =>
      if dialogue.inSession then
        match sessionStep tree root dialogue.server .disconnected with
        | none => none
        | some server => Dialogue.readOne { dialogue with server := server }
      else none

/-- The dialogues of a client with a server, from the first prompt on. -/
def dialogueMachine
    (tree : FileTree)
    (root : List UInt8) : Machine Dialogue DialogueEvent where
  initial dialogue := ∃ chunks : List Received,
    (chunks.map Subtype.val).flatten = Session.start.sent ∧
      Dialogue.read ⟨.start, ⟨⟨[], chunks⟩, none, []⟩, true⟩ = some dialogue
  step := dialogueStep tree root

/-- The client has read all that the server sent, and it is in the session as
long as the server is. -/
structure InTurn (dialogue : Dialogue) : Prop where
  read : dialogue.client.buffer.stream = []
  together : dialogue.inSession = true ↔ dialogue.server.running = true

/-- No line of a text is a prompt or `BYE`. -/
def Plain (text : List UInt8) : Prop :=
  ∀ line ∈ text.splitOn newline, lineStatus line = .ordinary

instance : DecidablePred Plain :=
  fun _ => inferInstanceAs (Decidable (∀ _ ∈ _, _))

/-- What a command has the server say is plain: the text of an `ECHO`, the
entries of a `LIST`, and the lines of the current directory before its
last. -/
structure PlainCommand
    (tree : FileTree)
    (root cwd cmd : List UInt8) : Prop where
  echo : strncasecmp cmd (ascii "ECHO ") 5 = 0 → Plain (cmd.drop 5)
  list : strcasecmp cmd (ascii "LIST") = 0 →
    ∀ entry ∈ handleList tree root cwd, Plain entry
  cwd : strcasecmp cmd (ascii "QUIT") ≠ 0 →
    ∀ line ∈ lines newline (answer tree root cwd cmd).cwd,
      lineStatus line = .ordinary

/-- The answer to a command is plain. -/
def PlainAnswer
    (tree : FileTree)
    (root : List UInt8)
    (dialogue : Dialogue) : DialogueEvent → Prop
  | .command line _ =>
      PlainCommand tree root dialogue.server.cwd
        (commandText (line ++ [newline]))
  | _ => True

/-! ## The lines of an answer -/

section Answers

variable (tree : FileTree) (root : List UInt8)

/-- The lines of an answer before the last line of the prompt. -/
def Reply.front (reply : Reply) : List (List UInt8) :=
  reply.body.flatMap (fun text => text.splitOn newline) ++
    lines newline reply.cwd

/-- The last line of the prompt. -/
def Reply.last (reply : Reply) : List UInt8 :=
  leftover newline [] reply.cwd ++ ascii ">"

theorem Reply.sent_eq_unlines
    {reply : Reply}
    (goesOn : reply.ends = false) :
    reply.sent = unlines newline (reply.front ++ [reply.last]) := by
  have whole : unlines newline (lines newline reply.cwd) ++
      leftover newline [] reply.cwd = reply.cwd :=
    unlines_completed_append [] reply.cwd
  have texts : unlines newline
      (reply.body.flatMap fun text => text.splitOn newline) =
        reply.body.flatMap fun text => text ++ [newline] := by
    rw [unlines, List.flatMap_assoc]
    exact List.flatMap_congr fun text _ => unlines_splitOn text
  rw [Reply.sent, goesOn, if_neg (by simp), prompt, Reply.front, Reply.last,
    unlines_append, unlines_append, texts, unlines_cons, List.append_assoc]
  congr 1
  rw [← List.append_assoc, ← List.append_assoc, whole, List.append_assoc]
  rfl

theorem Reply.unseparated
    (reply : Reply) :
    ∀ line ∈ reply.front ++ [reply.last], newline ∉ line := by
  have outside : newline ∉ ([] : List UInt8) := List.not_mem_nil
  intro line member
  rw [Reply.front, List.append_assoc, List.mem_append, List.mem_append,
    List.mem_singleton] at member
  rcases member with text | whole | rfl
  · obtain ⟨text, -, piece⟩ := List.mem_flatMap.mp text
    exact unseparated_of_mem_splitOn piece
  · exact unseparated_of_mem_completed outside whole
  · have start := leftover_unseparated outside reply.cwd
    have sign : newline ∉ ascii ">" := by decide
    rw [Reply.last, List.mem_append]
    exact not_or.mpr ⟨start, sign⟩

theorem lineStatus_last (reply : Reply) :
    lineStatus reply.last = .prompt := by
  have sign : isPrompt reply.last = true := by
    rw [isPrompt, Reply.last, ascii]
    simp
  rw [lineStatus, sign, if_pos rfl]

theorem Reply.front_ordinary_iff (reply : Reply) :
    (∀ line ∈ reply.front, lineStatus line = .ordinary) ↔
      (∀ text ∈ reply.body, Plain text) ∧
        ∀ line ∈ lines newline reply.cwd, lineStatus line = .ordinary := by
  rw [Reply.front, List.forall_mem_append, List.forall_mem_flatMap]
  rfl

/-- The texts of errors are plain. -/
theorem changeDirectory_plain (cwd target : List UInt8) :
    ∀ text ∈ (changeDirectory tree root cwd target).body, Plain text := by
  unfold changeDirectory
  split
  · exact List.forall_mem_nil _
  · split
    · exact List.forall_mem_nil _
    · cases buildPath tree.toFileSystem root cwd target with
      | none => exact List.forall_mem_singleton.mpr (by decide)
      | some newp =>
          dsimp only
          split
          · exact List.forall_mem_nil _
          · exact List.forall_mem_singleton.mpr (by decide)

/-- Only the text of an `ECHO` and the entries of a `LIST` need not be
plain. -/
theorem answer_plain_iff
    {cmd : List UInt8}
    (notQuit : strcasecmp cmd (ascii "QUIT") ≠ 0)
    (cwd : List UInt8) :
    (∀ text ∈ (answer tree root cwd cmd).body, Plain text) ↔
      (strncasecmp cmd (ascii "ECHO ") 5 = 0 → Plain (cmd.drop 5)) ∧
        (strcasecmp cmd (ascii "LIST") = 0 →
          ∀ entry ∈ handleList tree root cwd, Plain entry) := by
  by_cases lists : strcasecmp cmd (ascii "LIST") = 0
  · have notEcho := not_echo_of_keyword lists (by decide)
    rw [answer_of_list tree root lists]
    simp only [notEcho, lists, false_implies, true_implies, true_and]
  · by_cases echoes : strncasecmp cmd (ascii "ECHO ") 5 = 0
    · rw [answer_of_echo tree root echoes]
      simp [lists, echoes]
    · simp only [lists, echoes, false_implies, and_self, iff_true]
      unfold answer
      split_ifs with blank informs changes
      · exact List.forall_mem_nil _
      · exact List.forall_mem_singleton.mpr (by decide)
      · exact changeDirectory_plain tree root cwd _
      · exact List.forall_mem_singleton.mpr (by decide)

end Answers

/-! ## In turn -/

/-- The client reads lines of which the last is its prompt, or the end. -/
theorem read_unlines
    {dialogue : Dialogue}
    (front : List (List UInt8))
    (last : List UInt8)
    (unseparated : ∀ line ∈ front ++ [last], newline ∉ line)
    (stops : lineStatus last ≠ .ordinary)
    (streamEq : dialogue.client.buffer.stream =
      unlines newline (front ++ [last]))
    (inSession : dialogue.inSession = true)
    (prompts : lineStatus last = .prompt ↔ dialogue.server.running = true) :
    ∃ next, dialogue.read = some next ∧ next.server = dialogue.server ∧
      (InTurn next ↔ ∀ line ∈ front, lineStatus line = .ordinary) := by
  obtain ⟨status, client, reads, whole, ends⟩ :=
    readResponse_unlines unseparated stops streamEq
  have proceeds : ∃ next, dialogue.proceed (some status, client) = some next ∧
      next.server = dialogue.server ∧ next.client = client ∧
      (status ≠ .ordinary →
        (next.inSession = true ↔ status = .prompt)) := by
    cases status with
    | leave => exact ⟨_, rfl, rfl, rfl, fun _ => by simp⟩
    | prompt => exact ⟨_, rfl, rfl, rfl, fun _ => by simp [inSession]⟩
    | ordinary => exact ⟨_, rfl, rfl, rfl, fun not => absurd rfl not⟩
  obtain ⟨next, moves, sameServer, rfl, goesOn⟩ := proceeds
  refine ⟨next, by rw [Dialogue.read, reads, moves], sameServer, ?_⟩
  constructor
  · exact fun inTurn => whole.mp inTurn.read
  · intro ordinary
    have isLast := ends ordinary
    refine ⟨whole.mpr ordinary, ?_⟩
    rw [goesOn (isLast ▸ stops), isLast, prompts, sameServer]

section Steps

variable {tree : FileTree} {root : List UInt8} {dialogue next : Dialogue}

/-- The greeting is read to its end, however it arrives. -/
theorem exists_read_greeting
    {chunks : List Received}
    (whole : (chunks.map Subtype.val).flatten = Session.start.sent) :
    ∃ dialogue,
      Dialogue.read ⟨.start, ⟨⟨[], chunks⟩, none, []⟩, true⟩ =
          some dialogue ∧
        dialogue.server = .start ∧ InTurn dialogue := by
  have streamEq : ReadBuffer.stream ⟨[], chunks⟩ =
      unlines newline ([infoText] ++ [ascii ">"]) :=
    whole.trans (by decide)
  obtain ⟨dialogue, reads, server, inTurn⟩ :
      ∃ next, Dialogue.read ⟨.start, ⟨⟨[], chunks⟩, none, []⟩, true⟩ =
          some next ∧ next.server = .start ∧
        (InTurn next ↔ ∀ line ∈ [infoText], lineStatus line = .ordinary) :=
    read_unlines [infoText] (ascii ">") (by decide) (by decide) streamEq rfl
      (iff_of_true (by decide) rfl)
  exact ⟨dialogue, reads, server, inTurn.mpr (by decide)⟩

theorem inTurn_start
    (starts : (dialogueMachine tree root).initial dialogue) :
    InTurn dialogue := by
  obtain ⟨chunks, whole, reads⟩ := starts
  obtain ⟨dialogue', reads', -, inTurn⟩ := exists_read_greeting whole
  rw [reads, Option.some.injEq] at reads'
  exact reads' ▸ inTurn

theorem Client.receive_stream (client : Client) (chunks : List Received) :
    (client.receive chunks).buffer.stream =
      client.buffer.stream ++ (chunks.map Subtype.val).flatten := by
  simp [Client.receive, ReadBuffer.stream]

/-- A command is answered, and the answer arrives. -/
theorem dialogueStep_command
    {line : List UInt8}
    (inSession : dialogue.inSession = true)
    (isLine : IsCommandLine line)
    (running : dialogue.server.running = true)
    (fits : line.length + 1 < bufSize)
    {chunks : List Received}
    (delivered : (chunks.map Subtype.val).flatten =
      (answer tree root dialogue.server.cwd
        (commandText (line ++ [newline]))).sent) :
    dialogueStep tree root dialogue (.command line chunks) =
      Dialogue.read { dialogue with
        server := dialogue.server.handle tree root (line ++ [newline])
        client := dialogue.client.receive chunks } := by
  have size : (line ++ [newline]).length = line.length + 1 :=
    List.length_append
  have served : sessionStep tree root dialogue.server
      (.received (line ++ [newline])) =
        some (dialogue.server.handle tree root (line ++ [newline])) := by
    rw [sessionStep, if_pos running]
    exact if_pos (by omega)
  rw [dialogueStep, if_pos ⟨inSession, isLine⟩, if_pos running, served]
  exact if_pos (by rw [delivered]; rfl)

/-- Nothing else is a command. -/
theorem command_cases
    {line : List UInt8}
    {chunks : List Received}
    (inTurn : InTurn dialogue)
    (stepped : dialogueStep tree root dialogue (.command line chunks) =
      some next) :
    dialogue.inSession = true ∧
      (chunks.map Subtype.val).flatten =
        (answer tree root dialogue.server.cwd
          (commandText (line ++ [newline]))).sent ∧
      Dialogue.read { dialogue with
        server := dialogue.server.handle tree root (line ++ [newline])
        client := dialogue.client.receive chunks } = some next := by
  rw [dialogueStep, Option.ite_none_right_eq_some] at stepped
  obtain ⟨⟨inSession, -⟩, stepped⟩ := stepped
  rw [if_pos (inTurn.together.mp inSession)] at stepped
  cases served : sessionStep tree root dialogue.server
      (.received (line ++ [newline])) with
  | none => simp only [served, reduceCtorEq] at stepped
  | some server =>
      obtain ⟨-, rfl⟩ := sessionStep_received
        (show (sessionMachine tree root).step _ _ = _ from served)
      simp only [served, Option.ite_none_right_eq_some] at stepped
      obtain ⟨delivered, reads⟩ := stepped
      exact ⟨inSession, (List.append_cancel_left delivered).symm, reads⟩

/-- A whole answer is read, and client and server are in turn behind it just
when it is plain. -/
theorem exists_read_answer
    {cwd cmd : List UInt8}
    (inSession : dialogue.inSession = true)
    (running : dialogue.server.running =
      !(answer tree root cwd cmd).ends)
    (streamEq : dialogue.client.buffer.stream =
      (answer tree root cwd cmd).sent) :
    ∃ next, dialogue.read = some next ∧
      (InTurn next ↔ PlainCommand tree root cwd cmd) := by
  by_cases quits : strcasecmp cmd (ascii "QUIT") = 0
  · rw [answer_of_quit tree root quits] at streamEq running
    obtain ⟨next, reads, -, iff⟩ := read_unlines [] (ascii "BYE")
      (by decide) (by decide) streamEq inSession
      (iff_of_false (by decide) (by rw [running]; exact Bool.false_ne_true))
    refine ⟨next, reads, ?_⟩
    refine iff_of_true (iff.mpr (List.forall_mem_nil _)) ⟨?_, ?_, ?_⟩
    · intro echoes
      exact absurd echoes (not_echo_of_keyword quits (by decide))
    · intro lists
      rw [strcasecmp_eq_zero_iff] at quits lists
      exact absurd (quits.symm.trans lists) (by decide)
    · exact fun goesOn => absurd quits goesOn
  · have goesOn : (answer tree root cwd cmd).ends = false := by
      rw [← Bool.not_eq_true, answer_ends_iff]
      exact quits
    rw [goesOn] at running
    rw [Reply.sent_eq_unlines goesOn] at streamEq
    obtain ⟨next, reads, -, iff⟩ := read_unlines _ _
      (Reply.unseparated _) (by rw [lineStatus_last]; decide) streamEq
      inSession (iff_of_true (lineStatus_last _) running)
    refine ⟨next, reads, ?_⟩
    rw [iff, Reply.front_ordinary_iff, answer_plain_iff tree root quits cwd]
    constructor
    · rintro ⟨⟨echo, list⟩, before⟩
      exact ⟨echo, list, fun _ => before⟩
    · rintro ⟨echo, list, before⟩
      exact ⟨⟨echo, list⟩, before quits⟩

theorem exists_read_command
    {line : List UInt8}
    {chunks : List Received}
    (inTurn : InTurn dialogue)
    (inSession : dialogue.inSession = true)
    (delivered : (chunks.map Subtype.val).flatten =
      (answer tree root dialogue.server.cwd
        (commandText (line ++ [newline]))).sent) :
    ∃ next, Dialogue.read { dialogue with
        server := dialogue.server.handle tree root (line ++ [newline])
        client := dialogue.client.receive chunks } = some next ∧
      (InTurn next ↔
        PlainAnswer tree root dialogue (.command line chunks)) := by
  apply exists_read_answer
  · exact inSession
  · rfl
  · rw [Client.receive_stream, inTurn.read, List.nil_append, delivered]

/-- The client does not wait for an answer for ever. -/
theorem command_answered
    (tree : FileTree)
    (root line : List UInt8)
    (chunks : List Received)
    (inTurn : InTurn dialogue)
    (inSession : dialogue.inSession = true)
    (isLine : IsCommandLine line)
    (fits : line.length + 1 < bufSize)
    (delivered : (chunks.map Subtype.val).flatten =
      (answer tree root dialogue.server.cwd
        (commandText (line ++ [newline]))).sent) :
    ∃ next, dialogueStep tree root dialogue (.command line chunks) =
      some next := by
  rw [dialogueStep_command inSession isLine
    (inTurn.together.mp inSession) fits delivered]
  obtain ⟨next, reads, -⟩ := exists_read_command inTurn inSession delivered
  exact ⟨next, reads⟩

/-- An answer whose first line is not ordinary is read no further. -/
theorem command_misread
    (tree : FileTree)
    (root line : List UInt8)
    (chunks : List Received)
    (inTurn : InTurn dialogue)
    (inSession : dialogue.inSession = true)
    (isLine : IsCommandLine line)
    (fits : line.length + 1 < bufSize)
    (delivered : (chunks.map Subtype.val).flatten =
      (answer tree root dialogue.server.cwd
        (commandText (line ++ [newline]))).sent)
    {first tail : List UInt8}
    (unseparated : newline ∉ first)
    (stops : lineStatus first ≠ .ordinary)
    (whole : (chunks.map Subtype.val).flatten = first ++ newline :: tail) :
    ∃ next, dialogueStep tree root dialogue (.command line chunks) =
        some next ∧
      next.server = dialogue.server.handle tree root (line ++ [newline]) ∧
      next.client.buffer.stream = tail ∧
      (lineStatus first = .leave → next.inSession = false) := by
  have streamEq : (dialogue.client.receive chunks).buffer.stream =
      unlines newline [] ++ (first ++ newline :: tail) := by
    rw [Client.receive_stream, inTurn.read, whole]
    rfl
  obtain ⟨client, reads, rest⟩ := readResponse_of_stream
    (List.forall_mem_nil _) (List.forall_mem_nil _) unseparated stops streamEq
  rw [dialogueStep_command inSession isLine
    (inTurn.together.mp inSession) fits delivered, Dialogue.read, reads]
  cases status : lineStatus first with
  | leave => exact ⟨_, rfl, rfl, rest, fun _ => rfl⟩
  | prompt => exact ⟨_, rfl, rfl, rest, nofun⟩
  | ordinary => exact absurd status stops

theorem inTurn_command_iff
    {line : List UInt8}
    {chunks : List Received}
    (inTurn : InTurn dialogue)
    (stepped : dialogueStep tree root dialogue (.command line chunks) =
      some next) :
    InTurn next ↔
      PlainAnswer tree root dialogue (.command line chunks) := by
  obtain ⟨inSession, delivered, reads⟩ := command_cases inTurn stepped
  obtain ⟨next', readsNext, iff⟩ :=
    exists_read_command inTurn inSession delivered
  rw [reads, Option.some.injEq] at readsNext
  subst readsNext
  exact iff

/-- The other rounds of the loop keep client and server in turn. -/
theorem inTurn_step
    {event : DialogueEvent}
    (inTurn : InTurn dialogue)
    (plain : PlainAnswer tree root dialogue event)
    (stepped : (dialogueMachine tree root).step dialogue event = some next) :
    InTurn next := by
  cases event with
  | command line chunks => exact (inTurn_command_iff inTurn stepped).mpr plain
  | unsolicited =>
      change dialogueStep tree root dialogue .unsolicited = _ at stepped
      rw [dialogueStep, Option.ite_none_right_eq_some] at stepped
      obtain ⟨⟨inSession, nothing | ended⟩, -⟩ := stepped
      · exact absurd inTurn.read nothing
      · rw [inTurn.together.mp inSession] at ended
        cases ended
  | hangUp =>
      change dialogueStep tree root dialogue .hangUp = _ at stepped
      rw [dialogueStep, Option.ite_none_right_eq_some] at stepped
      obtain ⟨inSession, stepped⟩ := stepped
      rw [sessionStep, if_pos (inTurn.together.mp inSession)] at stepped
      simp only [Dialogue.readOne, handleServerLine_of_empty inTurn.read]
        at stepped
      cases stepped
      exact ⟨inTurn.read, by simp⟩

end Steps

/-- Over a whole dialogue the client takes every answer for what it is, just
when every answer is plain. -/
theorem inTurn_iff_plainAnswers
    (tree : FileTree)
    (root : List UInt8)
    (events : List DialogueEvent)
    {dialogue final : Dialogue}
    (starts : (dialogueMachine tree root).initial dialogue)
    (executed : (dialogueMachine tree root).run dialogue events =
      some final) :
    (dialogueMachine tree root).EveryState InTurn dialogue events ↔
      (dialogueMachine tree root).EveryStep (PlainAnswer tree root) dialogue
        events := by
  refine Machine.everyState_iff_everyStep (fun _ inTurn => inTurn)
    (fun _ _ _ inTurn plain stepped => inTurn_step inTurn plain stepped)
    (fun _ event _ inTurn notPlain stepped => ?_)
    (inTurn_start starts) executed
  cases event with
  | command line chunks =>
      exact fun next => notPlain ((inTurn_command_iff inTurn stepped).mp next)
  | unsolicited | hangUp => exact absurd trivial notPlain

/-- A dialogue whose greeting came in one piece. -/
theorem exists_start (tree : FileTree) (root : List UInt8) :
    ∃ dialogue, (dialogueMachine tree root).initial dialogue ∧
      dialogue.server = .start ∧ dialogue.inSession = true := by
  have whole : ([⟨Session.start.sent, by decide⟩] : List Received).map
      Subtype.val = [Session.start.sent] := rfl
  obtain ⟨dialogue, reads, server, inTurn⟩ := exists_read_greeting
    (show (([⟨Session.start.sent, by decide⟩] : List Received).map
      Subtype.val).flatten = Session.start.sent from List.append_nil _)
  refine ⟨dialogue, ⟨_, List.append_nil _, reads⟩, server, ?_⟩
  rw [inTurn.together, server]
  rfl

/-- The answer to `ECHO a>b`, cut behind the `>` of the text. -/
def echoReceived : List Received :=
  [⟨ascii "a>", by decide⟩, ⟨ascii "b\n>\n", by decide⟩]

theorem echo_in_turn :
    ∃ dialogue final,
      (dialogueMachine unreadableTree (ascii "/srv")).initial dialogue ∧
        (dialogueMachine unreadableTree (ascii "/srv")).run dialogue
          [.command (ascii "ECHO a>b") echoReceived] = some final ∧
        (dialogueMachine unreadableTree (ascii "/srv")).EveryState InTurn
          dialogue [.command (ascii "ECHO a>b") echoReceived] := by
  obtain ⟨dialogue, starts, server, inSession⟩ :=
    exists_start unreadableTree (ascii "/srv")
  obtain ⟨final, stepped⟩ := command_answered unreadableTree (ascii "/srv")
    (ascii "ECHO a>b") echoReceived (inTurn_start starts) inSession (by decide)
    (by decide) (by rw [server]; decide)
  have executed : (dialogueMachine unreadableTree (ascii "/srv")).run dialogue
      [.command (ascii "ECHO a>b") echoReceived] = some final := by
    rw [Machine.run_cons]
    exact Option.bind_eq_some_iff.mpr ⟨final, stepped, rfl⟩
  refine ⟨dialogue, final, starts, executed, ?_⟩
  refine (inTurn_iff_plainAnswers unreadableTree (ascii "/srv") _ starts
    executed).mpr ⟨?_, fun _ _ => trivial⟩
  -- No line of the text ends in `>`, though a piece of it does.
  refine ⟨fun _ => ?_, fun lists => ?_, fun _ => ?_⟩
  · decide
  · exact absurd lists (by decide)
  · rw [server]
    decide

/-- `ECHO a>` leaves the prompt unread, and `ECHO BYE` ends the client alone. -/
theorem echo_misread :
    ∃ dialogue prompted left,
      (dialogueMachine unreadableTree (ascii "/srv")).initial dialogue ∧
        (dialogueMachine unreadableTree (ascii "/srv")).run dialogue
          [.command (ascii "ECHO a>") [⟨ascii "a>\n>\n", by decide⟩]] =
            some prompted ∧
        prompted.client.buffer.stream = ascii ">\n" ∧
        (dialogueMachine unreadableTree (ascii "/srv")).run dialogue
          [.command (ascii "ECHO BYE") [⟨ascii "BYE\n>\n", by decide⟩]] =
            some left ∧
        left.inSession = false ∧ left.server.running = true ∧
        ¬InTurn prompted ∧ ¬InTurn left := by
  obtain ⟨dialogue, starts, server, inSession⟩ :=
    exists_start unreadableTree (ascii "/srv")
  have inTurn := inTurn_start starts
  obtain ⟨prompted, asked, -, unread, -⟩ := command_misread
    unreadableTree (ascii "/srv") (ascii "ECHO a>")
    [⟨ascii "a>\n>\n", by decide⟩] inTurn inSession
    (by decide) (by decide) (by rw [server]; decide)
    (show newline ∉ ascii "a>" by decide) (by decide)
    (show _ = ascii "a>" ++ newline :: ascii ">\n" by decide)
  obtain ⟨left, askedBye, handled, -, leaves⟩ := command_misread
    unreadableTree (ascii "/srv") (ascii "ECHO BYE")
    [⟨ascii "BYE\n>\n", by decide⟩] inTurn inSession
    (by decide) (by decide) (by rw [server]; decide)
    (show newline ∉ ascii "BYE" by decide) (by decide)
    (show _ = ascii "BYE" ++ newline :: ascii ">\n" by decide)
  have ended := leaves (by decide)
  have running : left.server.running = true := by
    rw [handled, server]
    rfl
  refine ⟨dialogue, prompted, left, starts, ?_, unread, ?_, ended, running,
    fun both => ?_, fun both => ?_⟩
  · rw [Machine.run_cons]
    exact Option.bind_eq_some_iff.mpr ⟨prompted, asked, rfl⟩
  · rw [Machine.run_cons]
    exact Option.bind_eq_some_iff.mpr ⟨left, askedBye, rfl⟩
  · exact absurd (unread.symm.trans both.read) (by decide)
  · rw [both.together.mpr running] at ended
    cases ended

end FileServer
end OSaSP
