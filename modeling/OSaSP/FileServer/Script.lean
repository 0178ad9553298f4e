import OSaSP.FileServer.Dialogue
import OSaSP.Foundations.BoundedReader

/-!
# Scripts

A line `@name` has the client send the lines of a file, each with its newline,
and read every answer up to its prompt before it sends the next line.  Empty
lines are skipped, and a line that does not fit into the buffer is sent in
pieces.

A line and its newline are two sends of the client.  Here they reach the server
in one chunk.

If the lines fit and every answer is plain, the client prints the answers to
the lines one after the other, up to a `QUIT`, however the network cuts the
answers.
-/

namespace OSaSP
namespace FileServer

open BoundedReader CString LineReader

section Program

variable (tree : FileTree) (root : List UInt8)

/-- A piece of the file up to its newline, as a C string. -/
def fileLine (piece : List UInt8) : List UInt8 :=
  piece.takeWhile fun byte => byte ≠ 0 && byte ≠ newline

/-- The loop over the pieces of the file; each answer arrives in the next of
the given ways. -/
def scriptLoop :
    List (List UInt8) → List (List Received) → Dialogue → Option Dialogue
  | [], _, dialogue => some dialogue
  | piece :: pieces, arrivals, dialogue =>
      if fileLine piece = [] then scriptLoop pieces arrivals dialogue
      else
        match arrivals with
        | [] => none
        | chunks :: arrivals =>
            (dialogueStep tree root dialogue
              (.command (fileLine piece) chunks)).bind fun next =>
                if next.inSession then scriptLoop pieces arrivals next
                else some next

/-- The client reads a script. -/
def script
    (file : List UInt8)
    (arrivals : List (List Received))
    (dialogue : Dialogue) : Option Dialogue :=
  scriptLoop tree root (pieces newline (bufSize - 1) file) arrivals dialogue

/-! ## What is expected -/

/-- The lines of a script that are sent. -/
def scriptLines (file : List UInt8) : List (List UInt8) :=
  (textLines newline file).filter fun line => line ≠ []

/-- The answer of the server to a line. -/
def lineReply (cwd line : List UInt8) : Reply :=
  answer tree root cwd (commandText (line ++ [newline]))

/-- The lines of an answer that are printed. -/
def Reply.shown (reply : Reply) : List (List UInt8) :=
  if reply.ends then [ascii "BYE"] else reply.front

/-- What the client prints for the lines of a script. -/
def transcript : List UInt8 → List (List UInt8) → List (List UInt8)
  | _, [] => []
  | cwd, line :: lines =>
      let reply := lineReply tree root cwd line
      if reply.ends then reply.shown
      else reply.shown ++ transcript reply.cwd lines

/-- The current directory of the session behind a script, unless a line has
ended the session. -/
def scriptCwd : List UInt8 → List (List UInt8) → Option (List UInt8)
  | cwd, [] => some cwd
  | cwd, line :: lines =>
      let reply := lineReply tree root cwd line
      if reply.ends then none else scriptCwd reply.cwd lines

/-- Every answer arrives whole and is plain. -/
def Answered :
    List UInt8 → List (List UInt8) → List (List Received) → Prop
  | _, [], _ => True
  | _, _ :: _, [] => False
  | cwd, line :: lines, chunks :: arrivals =>
      let reply := lineReply tree root cwd line
      (chunks.map Subtype.val).flatten = reply.sent ∧
        PlainCommand tree root cwd (commandText (line ++ [newline])) ∧
        (reply.ends = false → Answered reply.cwd lines arrivals)

end Program

/-! ## Reading an answer -/

section Answers

variable {tree : FileTree} {root : List UInt8} {dialogue : Dialogue}

theorem Reply.last_isPrompt (reply : Reply) : isPrompt reply.last = true := by
  have status := lineStatus_last reply
  unfold lineStatus at status
  split at status
  · assumption
  · split at status <;> cases status

/-- An ordinary line is printed and leaves the prompt as it is. -/
theorem Client.take_ordinary
    {client : Client}
    {line : List UInt8}
    (rest : ReadBuffer)
    (ordinary : lineStatus line = .ordinary) :
    client.take line rest =
      (.ordinary, ⟨rest, client.prompt, client.printed ++ [line]⟩) := by
  have notPrompt : isPrompt line = false := by
    cases prompts : isPrompt line with
    | false => rfl
    | true =>
        rw [lineStatus, prompts, if_pos rfl] at ordinary
        cases ordinary
  rw [Client.take, ordinary, notPrompt]
  rfl

/-- The ordinary lines of an answer are printed in front of the effect of its
last line. -/
theorem readResponse_prints
    {client : Client}
    {front : List (List UInt8)}
    {last tail : List UInt8}
    (unseparated : ∀ line ∈ front ++ [last], newline ∉ line)
    (ordinary : ∀ line ∈ front, lineStatus line = .ordinary)
    (stops : lineStatus last ≠ .ordinary)
    (streamEq : client.buffer.stream =
      unlines newline (front ++ [last]) ++ tail) :
    ∃ rest, rest.stream = tail ∧
      readResponse client =
        ((Client.take ⟨client.buffer, client.prompt, client.printed ++ front⟩
          last rest).map some id) := by
  induction front generalizing client with
  | nil =>
      rw [List.nil_append, unlines_cons, List.append_assoc] at streamEq
      obtain ⟨rest, handled, restEq⟩ := handleServerLine_of_stream
        (unseparated last (by simp)) streamEq
      refine ⟨rest, restEq, ?_⟩
      rw [readResponse_of_not_ordinary handled stops, List.append_nil]
      rfl
  | cons line front inductionHypothesis =>
      rw [List.cons_append, List.forall_mem_cons] at unseparated
      rw [List.forall_mem_cons] at ordinary
      rw [List.cons_append, unlines_cons, List.append_assoc,
        List.cons_append] at streamEq
      obtain ⟨rest, handled, restEq⟩ :=
        handleServerLine_of_stream unseparated.1 streamEq
      rw [Client.take_ordinary rest ordinary.1] at handled
      obtain ⟨behind, behindEq, reads⟩ := @inductionHypothesis
        ⟨rest, client.prompt, client.printed ++ [line]⟩ unseparated.2
        ordinary.2 restEq
      refine ⟨behind, behindEq, ?_⟩
      rw [readResponse_of_ordinary handled, reads, List.append_assoc]
      rfl

/-- The answer to a line is read to its end: its lines are printed, and client
and server go on together or leave each other. -/
structure LineAnswered
    (tree : FileTree)
    (root line : List UInt8)
    (dialogue next : Dialogue) : Prop where
  inTurn : InTurn next
  server : next.server =
    dialogue.server.handle tree root (line ++ [newline])
  printed : next.client.printed = dialogue.client.printed ++
    (lineReply tree root dialogue.server.cwd line).shown
  inSession : next.inSession =
    !(lineReply tree root dialogue.server.cwd line).ends
  prompt : (lineReply tree root dialogue.server.cwd line).ends = false →
    next.client.prompt =
      some (lineReply tree root dialogue.server.cwd line).last

/-- One round of the loop over the lines of a script. -/
theorem exists_answered
    {line : List UInt8}
    {chunks : List Received}
    (inTurn : InTurn dialogue)
    (inSession : dialogue.inSession = true)
    (isLine : IsCommandLine line)
    (fits : line.length + 1 < bufSize)
    (delivered : (chunks.map Subtype.val).flatten =
      (lineReply tree root dialogue.server.cwd line).sent)
    (plain : PlainCommand tree root dialogue.server.cwd
      (commandText (line ++ [newline]))) :
    ∃ next, dialogueStep tree root dialogue (.command line chunks) =
        some next ∧
      LineAnswered tree root line dialogue next := by
  have running := inTurn.together.mp inSession
  have streamEq : (dialogue.client.receive chunks).buffer.stream =
      (lineReply tree root dialogue.server.cwd line).sent := by
    rw [Client.receive_stream, inTurn.read, List.nil_append, delivered]
  rw [dialogueStep_command inSession isLine running fits delivered]
  cases ends : (lineReply tree root dialogue.server.cwd line).ends with
  | true =>
      have quits : strcasecmp (commandText (line ++ [newline]))
          (ascii "QUIT") = 0 :=
        (answer_ends_iff tree root _ _).mp ends
      have reply : lineReply tree root dialogue.server.cwd line = _ :=
        answer_of_quit tree root quits dialogue.server.cwd
      have goodbye : (dialogue.client.receive chunks).buffer.stream =
          unlines newline ([] ++ [ascii "BYE"]) ++ [] := by
        rw [streamEq, reply]
        rfl
      obtain ⟨rest, restEq, reads⟩ := readResponse_prints
        (fun line member => by
          rw [List.mem_singleton.mp member]
          decide)
        (List.forall_mem_nil _) (by decide) goodbye
      rw [Dialogue.read, reads, List.append_nil]
      refine ⟨_, rfl, ⟨restEq, ?_⟩, rfl, ?_, ?_, ?_⟩
      · change false = true ↔ (!(lineReply tree root dialogue.server.cwd
          line).ends) = true
        rw [ends]
        decide
      · rw [Reply.shown, ends]
        rfl
      · rw [ends]
        rfl
      · rw [ends]
        exact fun goesOn => absurd goesOn.symm Bool.false_ne_true
  | false =>
      have goesOn : strcasecmp (commandText (line ++ [newline]))
          (ascii "QUIT") ≠ 0 := by
        rw [Ne, ← answer_ends_iff tree root dialogue.server.cwd, ← lineReply,
          ends]
        exact Bool.false_ne_true
      have ordinary : ∀ text ∈
          (lineReply tree root dialogue.server.cwd line).front,
          lineStatus text = .ordinary :=
        (Reply.front_ordinary_iff _).mpr
          ⟨(answer_plain_iff tree root goesOn _).mpr ⟨plain.echo, plain.list⟩,
            plain.cwd goesOn⟩
      rw [Reply.sent_eq_unlines ends, ← List.append_nil (unlines _ _)]
        at streamEq
      have status := lineStatus_last
        (lineReply tree root dialogue.server.cwd line)
      obtain ⟨rest, restEq, reads⟩ := readResponse_prints
        (Reply.unseparated _) ordinary (by rw [status]; decide) streamEq
      rw [Dialogue.read, reads, Client.take, status, Reply.last_isPrompt]
      refine ⟨_, rfl, ⟨restEq, ?_⟩, rfl, ?_, ?_, ?_⟩
      · change dialogue.inSession = true ↔
          (!(lineReply tree root dialogue.server.cwd line).ends) = true
        rw [ends, inSession]
        decide
      · rw [Reply.shown, ends]
        rfl
      · rw [ends]
        exact inSession
      · exact fun _ => rfl

end Answers

/-! ## The lines of a file -/

section Lines

variable {tree : FileTree} {root : List UInt8}

/-- A newline at the end is cut off. -/
theorem fileLine_newline (line : List UInt8) :
    fileLine (line ++ [newline]) = fileLine line := by
  induction line with
  | nil => rfl
  | cons byte line inductionHypothesis =>
      unfold fileLine at inductionHypothesis ⊢
      rw [List.cons_append, List.takeWhile_cons, List.takeWhile_cons,
        inductionHypothesis]

theorem fileLine_of_not_mem
    {line : List UInt8}
    (unseparated : newline ∉ line)
    (noZero : 0 ∉ line) :
    fileLine line = line := by
  apply List.takeWhile_eq_self_iff.mpr
  intro byte member
  have notZero : byte ≠ 0 := fun same => noZero (same ▸ member)
  have notNewline : byte ≠ newline := fun same => unseparated (same ▸ member)
  simp [notZero, notNewline]

/-- The loop does not care for what it has not come to. -/
theorem scriptLoop_congr
    {first second : List (List UInt8)}
    (same : ∀ arrivals dialogue, scriptLoop tree root first arrivals dialogue =
      scriptLoop tree root second arrivals dialogue)
    (front : List (List UInt8))
    (arrivals : List (List Received))
    (dialogue : Dialogue) :
    scriptLoop tree root (front ++ first) arrivals dialogue =
      scriptLoop tree root (front ++ second) arrivals dialogue := by
  induction front generalizing arrivals dialogue with
  | nil => exact same arrivals dialogue
  | cons piece front inductionHypothesis =>
      simp only [List.cons_append, scriptLoop, inductionHypothesis]

/-- A last line without its newline is like one with it. -/
theorem scriptLoop_last
    (last : List UInt8)
    (arrivals : List (List Received))
    (dialogue : Dialogue) :
    scriptLoop tree root (if last.isEmpty then [] else [last]) arrivals
        dialogue =
      scriptLoop tree root [last ++ [newline]] arrivals dialogue := by
  cases last with
  | nil => rfl
  | cons byte last =>
      rw [List.isEmpty_cons, if_neg Bool.false_ne_true]
      simp only [scriptLoop, fileLine_newline]

/-- Lines that fit are read one by one. -/
theorem pieces_unlines_short
    {room : Nat}
    {texts : List (List UInt8)}
    (unseparated : ∀ text ∈ texts, newline ∉ text)
    (fits : ∀ text ∈ texts, text.length < room) :
    pieces newline room (unlines newline texts) =
      texts.map (· ++ [newline]) := by
  induction texts with
  | nil => rfl
  | cons text texts inductionHypothesis =>
      rw [List.forall_mem_cons] at unseparated fits
      rw [unlines_cons, pieces_line unseparated.1,
        pieces_short unseparated.1 fits.1,
        inductionHypothesis unseparated.2 fits.2]
      rfl

end Lines

/-! ## The whole script -/

/-- The prompt that the client shows is that of the session. -/
def Prompted (dialogue : Dialogue) : Prop :=
  dialogue.client.prompt =
    some (leftover newline [] dialogue.server.cwd ++ ascii ">")

/-- The lines have been sent, up to the one that ended the session, and their
answers printed. -/
structure Performed
    (tree : FileTree)
    (root : List UInt8)
    (lines : List (List UInt8))
    (dialogue final : Dialogue) : Prop where
  inTurn : InTurn final
  printed : final.client.printed = dialogue.client.printed ++
    transcript tree root dialogue.server.cwd lines
  cwd : (if final.inSession then some final.server.cwd else none) =
    scriptCwd tree root dialogue.server.cwd lines
  prompted : Prompted dialogue → final.inSession = true → Prompted final

section Scripts

variable {tree : FileTree} {root : List UInt8} {dialogue : Dialogue}

/-- A line that has been answered, and the lines behind it. -/
theorem LineAnswered.performed
    {line : List UInt8}
    {lines : List (List UInt8)}
    {next final : Dialogue}
    (first : LineAnswered tree root line dialogue next)
    (goesOn : (lineReply tree root dialogue.server.cwd line).ends = false)
    (rest : Performed tree root lines next final) :
    Performed tree root (line :: lines) dialogue final := by
  have cwd : next.server.cwd =
      (lineReply tree root dialogue.server.cwd line).cwd := by
    rw [first.server]
    rfl
  refine ⟨rest.inTurn, ?_, ?_, ?_⟩
  · rw [rest.printed, first.printed, cwd, transcript, goesOn, if_neg (by simp),
      List.append_assoc]
  · rw [rest.cwd, cwd, scriptCwd, goesOn, if_neg (by simp)]
  · intro _ inSession
    refine rest.prompted ?_ inSession
    rw [Prompted, first.prompt goesOn, cwd]
    rfl

/-- The line that ends the session is the last one. -/
theorem LineAnswered.performed_last
    {line : List UInt8}
    {next : Dialogue}
    (last : LineAnswered tree root line dialogue next)
    (ends : (lineReply tree root dialogue.server.cwd line).ends = true)
    (lines : List (List UInt8)) :
    Performed tree root (line :: lines) dialogue next := by
  have left : next.inSession = false := by
    rw [last.inSession, ends]
    rfl
  refine ⟨last.inTurn, ?_, ?_, ?_⟩
  · rw [last.printed, transcript, ends, if_pos rfl]
  · rw [left, scriptCwd, ends]
    rfl
  · rw [left]
    exact fun _ same => absurd same Bool.false_ne_true

/-- The loop over the lines of a file. -/
theorem exists_performed
    {texts : List (List UInt8)}
    {arrivals : List (List Received)}
    (unseparated : ∀ text ∈ texts, newline ∉ text)
    (short : ∀ text ∈ texts, 0 ∉ text ∧ text.length + 1 < bufSize)
    (inTurn : InTurn dialogue)
    (inSession : dialogue.inSession = true)
    (answered : Answered tree root dialogue.server.cwd
      (texts.filter fun line => line ≠ []) arrivals) :
    ∃ final, scriptLoop tree root (texts.map (· ++ [newline])) arrivals
        dialogue = some final ∧
      Performed tree root (texts.filter fun line => line ≠ []) dialogue
        final := by
  induction texts generalizing dialogue arrivals with
  | nil =>
      refine ⟨dialogue, rfl, inTurn, (List.append_nil _).symm, ?_,
        fun prompted _ => prompted⟩
      rw [inSession]
      rfl
  | cons text texts inductionHypothesis =>
      rw [List.forall_mem_cons] at unseparated short
      have line : fileLine (text ++ [newline]) = text :=
        (fileLine_newline text).trans
          (fileLine_of_not_mem unseparated.1 short.1.1)
      simp only [List.map_cons, scriptLoop, line]
      by_cases empty : text = []
      · rw [if_pos empty]
        rw [List.filter_cons_of_neg (by simpa using empty)] at answered ⊢
        exact inductionHypothesis unseparated.2 short.2 inTurn inSession
          answered
      rw [if_neg empty]
      rw [List.filter_cons_of_pos (by simpa using empty)] at answered ⊢
      cases arrivals with
      | nil => exact answered.elim
      | cons chunks arrivals =>
          obtain ⟨delivered, plain, others⟩ := answered
          have isLine : IsCommandLine text :=
            ⟨List.length_pos_iff.mpr empty, unseparated.1, short.1.1⟩
          obtain ⟨next, stepped, first⟩ := exists_answered inTurn inSession
            isLine short.1.2 delivered plain
          simp only [stepped, Option.bind_some, first.inSession]
          cases ends : (lineReply tree root dialogue.server.cwd text).ends with
          | true => exact ⟨next, rfl, first.performed_last ends _⟩
          | false =>
              have cwd : next.server.cwd =
                  (lineReply tree root dialogue.server.cwd text).cwd := by
                rw [first.server]
                rfl
              obtain ⟨final, ran, rest⟩ := inductionHypothesis unseparated.2
                short.2 first.inTurn (by rw [first.inSession, ends]; rfl)
                (cwd ▸ others ends)
              exact ⟨final, ran, first.performed ends rest⟩

end Scripts

/-- If the lines of a file fit and have no zero bytes, each reaches the server
in one chunk with its newline, and every answer is plain, then the client
performs the script: however the answers arrive, it prints those to the nonempty
lines one after the other, up to the one that ends the session, and shows the
prompt of the session behind them. -/
theorem script_performed
    (tree : FileTree)
    (root file : List UInt8)
    (arrivals : List (List Received))
    (dialogue : Dialogue)
    (inTurn : InTurn dialogue)
    (inSession : dialogue.inSession = true)
    (short : ∀ line ∈ textLines newline file,
      0 ∉ line ∧ line.length + 1 < bufSize)
    (answered : Answered tree root dialogue.server.cwd (scriptLines file)
      arrivals) :
    ∃ final, script tree root file arrivals dialogue = some final ∧
      Performed tree root (scriptLines file) dialogue final := by
  have unseparated : ∀ line ∈ textLines newline file, newline ∉ line :=
    fun _ => unseparated_of_mem_textLines
  have read : script tree root file arrivals dialogue =
      scriptLoop tree root ((textLines newline file).map (· ++ [newline]))
        arrivals dialogue := by
    rw [script, read_textLines
      (fun pieces => scriptLoop tree root pieces arrivals dialogue)
      (fun front last _ => scriptLoop_congr (scriptLoop_last last) front
        arrivals dialogue)]
    rw [pieces_unlines_short unseparated fun line member => ?_]
    have fits := (short line member).2
    omega
  rw [read]
  exact exists_performed unseparated short inTurn inSession answered

/-- An empty line is skipped, and nothing is sent behind `QUIT`. -/
theorem echo_quit_performed :
    ∃ dialogue final,
      (dialogueMachine unreadableTree (ascii "/srv")).initial dialogue ∧
      script unreadableTree (ascii "/srv") (ascii "ECHO a>b\n\nquit \nLIST")
        [echoReceived, [⟨ascii "BYE\n", by decide⟩]] dialogue = some final ∧
      Performed unreadableTree (ascii "/srv")
        [ascii "ECHO a>b", ascii "quit ", ascii "LIST"] dialogue final := by
  obtain ⟨dialogue, starts, server, inSession⟩ :=
    exists_start unreadableTree (ascii "/srv")
  have answered : Answered unreadableTree (ascii "/srv") []
      [ascii "ECHO a>b", ascii "quit ", ascii "LIST"]
      [echoReceived, [⟨ascii "BYE\n", by decide⟩]] := by
    refine ⟨by decide, ⟨?_, ?_, ?_⟩, fun _ => ⟨by decide, ⟨?_, ?_, ?_⟩,
      fun goesOn => absurd goesOn (by decide)⟩⟩
    all_goals decide
  obtain ⟨final, ran, performed⟩ := script_performed unreadableTree
    (ascii "/srv") (ascii "ECHO a>b\n\nquit \nLIST")
    [echoReceived, [⟨ascii "BYE\n", by decide⟩]] dialogue (inTurn_start starts)
    inSession (by decide) (by rw [server]; exact answered)
  exact ⟨dialogue, final, starts, ran, performed⟩

end FileServer
end OSaSP
