import OSaSP.FileServer.Session

/-!
# How the network cuts a client's stream

The server keeps nothing from one `recv` to the next, so what it answers
depends on the cuts.  It is in step with the lines of the stream as long as
every chunk completes exactly one line and what arrived of that line before
makes no difference.
-/

namespace OSaSP
namespace FileServer

open CString LineReader

/-- A stream in the pieces that `recv` may return it in. -/
structure IsCut (stream : List UInt8) (chunks : List (List UInt8)) : Prop where
  whole : chunks.flatten = stream
  sizes : ∀ chunk ∈ chunks, 0 < chunk.length ∧ chunk.length < bufSize

/-- A session over one chunk after the other; what comes after its end is not
read. -/
def Session.serve
    (tree : FileTree)
    (root : List UInt8) : Session → List (List UInt8) → Session
  | session, [] => session
  | session, chunk :: chunks =>
      if session.running then
        Session.serve tree root (session.handle tree root chunk) chunks
      else session

/-- The session of a server that takes every line of what it received for one
command. -/
def lineSession
    (tree : FileTree)
    (root received : List UInt8) : Session :=
  Session.start.serve tree root (lines newline received)

/-- The same commands and the same bytes sent. -/
def SameAnswers (first second : Session) : Prop :=
  first.commands = second.commands ∧ first.sent = second.sent

/-- Any two cuts of a stream have the same answers, those for its lines. -/
def CutsAgree
    (tree : FileTree)
    (root stream : List UInt8) : Prop :=
  ∀ first second, IsCut stream first → IsCut stream second →
    SameAnswers (Session.start.serve tree root first)
        (Session.start.serve tree root second) ∧
      SameAnswers (Session.start.serve tree root first)
        (lineSession tree root stream)

/-- The commands and the bytes sent so far are those for the lines received so
far, each handled once. -/
def InStep
    (tree : FileTree)
    (root : List UInt8)
    (session : Session) : Prop :=
  SameAnswers session (lineSession tree root session.received)

/-- A received chunk completes exactly one line, unless the line is `QUIT` and
more lines follow it, and the bytes of the line that were received before make
no difference to its command. -/
def CompletesOneLine (session : Session) : SessionEvent → Prop
  | .received chunk =>
      ∃ line rest,
        chunk = line ++ newline :: rest ∧ newline ∉ line ∧
          commandText (leftover newline [] session.received ++ line) =
            commandText line ∧
          (newline ∈ rest → strcasecmp (commandText line) (ascii "QUIT") = 0)
  | _ => True

section Serve

variable {tree : FileTree} {root : List UInt8}

theorem serve_cons
    {session : Session}
    (running : session.running = true)
    (chunk : List UInt8)
    (chunks : List (List UInt8)) :
    session.serve tree root (chunk :: chunks) =
      (session.handle tree root chunk).serve tree root chunks := by
  rw [Session.serve, if_pos running]

theorem serve_of_ended
    {session : Session}
    (ended : session.running = false)
    (chunks : List (List UInt8)) :
    session.serve tree root chunks = session := by
  cases chunks with
  | nil => rfl
  | cons chunk chunks => rw [Session.serve, ended, if_neg (by simp)]

theorem serve_append
    (session : Session)
    (front back : List (List UInt8)) :
    session.serve tree root (front ++ back) =
      (session.serve tree root front).serve tree root back := by
  induction front generalizing session with
  | nil => rfl
  | cons chunk front inductionHypothesis =>
      cases running : session.running with
      | true =>
          rw [List.cons_append, serve_cons running, serve_cons running,
            inductionHypothesis]
      | false =>
          rw [serve_of_ended running, serve_of_ended running,
            serve_of_ended running]

/-- A run that only receives serves its chunks. -/
theorem run_received
    {session final : Session}
    {chunks : List (List UInt8)}
    (executed : (sessionMachine tree root).run session
      (chunks.map .received) = some final) :
    final = session.serve tree root chunks := by
  induction chunks generalizing session with
  | nil => exact (Option.some.inj executed).symm
  | cons chunk chunks inductionHypothesis =>
      rw [List.map_cons, Machine.run_cons, Option.bind_eq_some_iff]
        at executed
      obtain ⟨next, stepped, rest⟩ := executed
      obtain ⟨running, rfl⟩ := sessionStep_received stepped
      rw [serve_cons running]
      exact inductionHypothesis rest

/-- Logs and sent bytes only grow. -/
theorem commands_prefix_serve
    (tree : FileTree)
    (root : List UInt8)
    (session : Session)
    (chunks : List (List UInt8)) :
    session.commands <+: (session.serve tree root chunks).commands := by
  induction chunks generalizing session with
  | nil => exact List.prefix_refl _
  | cons chunk chunks inductionHypothesis =>
      rw [Session.serve]
      split
      · refine List.IsPrefix.trans ?_ (inductionHypothesis _)
        simp only [Session.handle]
        split
        · exact List.prefix_refl _
        · exact List.prefix_append _ _
      · exact List.prefix_refl _

theorem sent_length_le_serve
    (tree : FileTree)
    (root : List UInt8)
    (session : Session)
    (chunks : List (List UInt8)) :
    session.sent.length ≤
      (session.serve tree root chunks).sent.length := by
  induction chunks generalizing session with
  | nil => exact Nat.le_refl _
  | cons chunk chunks inductionHypothesis =>
      rw [Session.serve]
      split
      · refine Nat.le_trans ?_ (inductionHypothesis _)
        simp [Session.handle]
      · exact Nat.le_refl _

theorem handle_sent_length
    (tree : FileTree)
    (root : List UInt8)
    (session : Session)
    (chunk : List UInt8) :
    (session.handle tree root chunk).sent.length =
      session.sent.length +
        (answer tree root session.cwd (commandText chunk)).sent.length :=
  List.length_append

/-- A running session that has something to serve sends more. -/
theorem sent_length_lt_serve
    (tree : FileTree)
    (root : List UInt8)
    {session : Session}
    (running : session.running = true)
    {chunks : List (List UInt8)}
    (more : chunks ≠ []) :
    session.sent.length < (session.serve tree root chunks).sent.length := by
  obtain ⟨chunk, chunks, rfl⟩ := List.exists_cons_of_ne_nil more
  rw [serve_cons running]
  refine Nat.lt_of_lt_of_le ?_ (sent_length_le_serve tree root _ chunks)
  rw [handle_sent_length]
  exact Nat.lt_add_of_pos_right (answer_sent_pos tree root _ _)

/-- A session that logs one more command sends at least the answer to it. -/
theorem answer_le_serve
    {session : Session}
    {cmd : List UInt8}
    {chunks : List (List UInt8)}
    (logs : (session.serve tree root chunks).commands =
      session.commands ++ [cmd]) :
    session.sent.length + (answer tree root session.cwd cmd).sent.length ≤
      (session.serve tree root chunks).sent.length := by
  induction chunks generalizing session with
  | nil => simp [Session.serve] at logs
  | cons chunk chunks inductionHypothesis =>
      cases running : session.running with
      | false =>
          rw [serve_of_ended running] at logs
          simp at logs
      | true =>
          rw [serve_cons running] at logs ⊢
          have grows := handle_sent_length tree root session chunk
          by_cases blank : commandText chunk = []
          · have sameLog : (session.handle tree root chunk).commands =
                session.commands := by
              simp [Session.handle, blank]
            have sameCwd : (session.handle tree root chunk).cwd =
                session.cwd := by
              simp [Session.handle, blank, answer_nil]
            rw [← sameLog] at logs
            have later := inductionHypothesis logs
            rw [sameCwd] at later
            omega
          · have newLog : (session.handle tree root chunk).commands =
                session.commands ++ [commandText chunk] := by
              simp [Session.handle, blank]
            have before := commands_prefix_serve tree root
              (session.handle tree root chunk) chunks
            rw [newLog, logs, List.prefix_append_right_inj] at before
            have same : commandText chunk = cmd := by
              simpa using before
            have later := sent_length_le_serve tree root
              (session.handle tree root chunk) chunks
            rw [same] at grows
            omega

end Serve

/-! ## Two cuts of one stream -/

section Cuts

variable (tree : FileTree) (root : List UInt8)

/-- A stream of at most one byte has one cut. -/
theorem IsCut.unique
    {stream : List UInt8}
    {first second : List (List UInt8)}
    (short : stream.length ≤ 1)
    (firstCut : IsCut stream first)
    (secondCut : IsCut stream second) :
    first = second := by
  have only : ∀ chunks, IsCut stream chunks →
      chunks = if stream = [] then [] else [stream] := by
    intro chunks cut
    have whole := cut.whole
    cases chunks with
    | nil =>
        subst whole
        rfl
    | cons chunk chunks =>
        have nonempty := (cut.sizes chunk (.head _)).1
        cases chunks with
        | nil =>
            rw [List.flatten_cons, List.flatten_nil, List.append_nil]
              at whole
            subst whole
            rw [if_neg (List.length_pos_iff.mp nonempty)]
        | cons other chunks =>
            have nonemptyOther := (cut.sizes other (by simp)).1
            have size := congrArg List.length whole
            simp only [List.flatten_cons, List.length_append] at size
            omega
  rw [only first firstCut, only second secondCut]

theorem commandText_length_le (chunk : List UInt8) :
    (commandText chunk).length ≤ chunk.length := by
  unfold commandText trim
  rw [List.length_reverse]
  refine (List.dropWhile_suffix _).length_le.trans ?_
  rw [List.length_reverse]
  exact (List.dropWhile_suffix _).length_le.trans
    (List.takeWhile_prefix _).length_le

/-- What a chunk too short for a command adds to a session. -/
theorem handle_of_short
    (session : Session)
    (chunk : List UInt8)
    (short : chunk.length ≤ 2) :
    (session.handle tree root chunk).cwd = session.cwd ∧
      (session.handle tree root chunk).running = true ∧
      (session.handle tree root chunk).sent.length =
        session.sent.length + session.cwd.length +
          if commandText chunk = [] then 2 else 18 := by
  have promptSize : (prompt session.cwd).length = session.cwd.length + 2 :=
    List.length_append
  by_cases blank : commandText chunk = []
  · simp only [Session.handle, blank, answer_nil]
    refine ⟨trivial, rfl, ?_⟩
    simp [Reply.sent, promptSize]
    omega
  · have size := (commandText_length_le chunk).trans short
    simp only [Session.handle, answer_of_short tree root blank size, blank]
    refine ⟨trivial, rfl, ?_⟩
    have unknown : (ascii "Unknown command").length = 15 := rfl
    simp [Reply.sent, promptSize, unknown]
    omega

/-- Single bytes add the same to two sessions in the same directory. -/
theorem serve_singles
    {first second : Session}
    (sameCwd : first.cwd = second.cwd)
    (firstRunning : first.running = true)
    (secondRunning : second.running = true)
    (bytes : List UInt8) :
    (first.serve tree root (bytes.map fun byte => [byte])).sent.length +
        second.sent.length =
      (second.serve tree root (bytes.map fun byte => [byte])).sent.length +
        first.sent.length := by
  induction bytes generalizing first second with
  | nil => exact Nat.add_comm _ _
  | cons byte bytes inductionHypothesis =>
      obtain ⟨firstCwd, firstRuns, firstSize⟩ :=
        handle_of_short tree root first [byte] (Nat.le_succ 1)
      obtain ⟨secondCwd, secondRuns, secondSize⟩ :=
        handle_of_short tree root second [byte] (Nat.le_succ 1)
      have later := inductionHypothesis
        ((firstCwd.trans sameCwd).trans secondCwd.symm) firstRuns secondRuns
      rw [List.map_cons, serve_cons firstRunning, serve_cons secondRunning]
      rw [sameCwd] at firstSize
      omega

/-- The cut into single bytes. -/
theorem isCut_singles (stream : List UInt8) :
    IsCut stream (stream.map fun byte => [byte]) := by
  constructor
  · induction stream with
    | nil => rfl
    | cons byte stream inductionHypothesis =>
        rw [List.map_cons, List.flatten_cons, inductionHypothesis]
        rfl
  · intro chunk member
    obtain ⟨byte, -, rfl⟩ := List.mem_map.mp member
    exact ⟨Nat.one_pos, by change 1 < 4096; decide⟩

/-- Every stream of two bytes or more has two cuts with different answers: all
bytes on their own, or the first two together. -/
theorem exists_cuts_sent_ne
    {stream : List UInt8}
    (long : 1 < stream.length) :
    ∃ first second,
      IsCut stream first ∧ IsCut stream second ∧
        (Session.start.serve tree root first).sent ≠
          (Session.start.serve tree root second).sent := by
  obtain ⟨byte, next, rest, rfl⟩ :
      ∃ byte next rest, stream = byte :: next :: rest := by
    cases stream with
    | nil => cases long
    | cons byte rest =>
        cases rest with
        | nil => exact absurd long (Nat.lt_irrefl 1)
        | cons next rest => exact ⟨byte, next, rest, rfl⟩
  have singles := isCut_singles (byte :: next :: rest)
  refine ⟨_, [byte, next] :: rest.map fun byte => [byte], singles, ?_, ?_⟩
  · constructor
    · have whole := (isCut_singles rest).whole
      rw [List.flatten_cons, whole]
      rfl
    · intro chunk member
      rcases List.mem_cons.mp member with rfl | later
      · exact ⟨Nat.two_pos, by change 2 < 4096; decide⟩
      · exact (isCut_singles rest).sizes chunk later
  · intro same
    have one := handle_of_short tree root Session.start [byte]
      (Nat.le_succ 1)
    have two := handle_of_short tree root
      (Session.start.handle tree root [byte]) [next] (Nat.le_succ 1)
    have both := handle_of_short tree root Session.start [byte, next]
      (Nat.le_refl 2)
    have later := serve_singles tree root
      ((two.1.trans one.1).trans both.1.symm) two.2.1 both.2.1 rest
    rw [List.map_cons, List.map_cons, serve_cons rfl, serve_cons one.2.1,
      serve_cons rfl] at same
    rw [same] at later
    have sizes := Nat.add_left_cancel later
    rw [both.2.2, two.2.2, one.2.2, one.1] at sizes
    change _ + 0 + _ = _ + 0 + _ + 0 + _ at sizes
    split_ifs at sizes <;> omega

/-- A single byte is a line when it is the newline; any byte is answered. -/
theorem cutsAgree_iff (stream : List UInt8) :
    CutsAgree tree root stream ↔ stream = [] ∨ stream = [newline] := by
  constructor
  · intro agree
    have whole := isCut_singles stream
    rcases Nat.lt_or_ge 1 stream.length with long | short
    · obtain ⟨first, second, firstCut, secondCut, different⟩ :=
        exists_cuts_sent_ne tree root long
      exact absurd (agree first second firstCut secondCut).1.2 different
    · by_cases line : newline ∈ stream
      · have single := List.length_eq_one_iff.mp
          (Nat.le_antisymm short (List.length_pos_of_mem line))
        obtain ⟨byte, rfl⟩ := single
        rw [List.mem_singleton] at line
        exact .inr (line ▸ rfl)
      · -- Nothing is completed, so nothing may be answered.
        have sends := (agree _ _ whole whole).2.2
        rw [lineSession, lines, completed_of_not_mem line] at sends
        by_cases empty : stream = []
        · exact .inl empty
        · have grows := sent_length_lt_serve tree root
            (show Session.start.running = true from rfl)
            (show stream.map (fun byte => [byte]) ≠ [] by simpa using empty)
          exact absurd (congrArg List.length sends) (Nat.ne_of_gt grows)
  · rintro (rfl | rfl) first second firstCut secondCut
    all_goals
      have same := IsCut.unique (by decide) firstCut secondCut
      have shape := IsCut.unique (by decide) firstCut (isCut_singles _)
      subst same shape
      exact ⟨⟨rfl, rfl⟩, rfl, rfl⟩

end Cuts

/-! ## A session beside the one over the lines -/

section Runs

variable {tree : FileTree} {root : List UInt8}

/-- A session is where the session over the lines received so far is. -/
structure Follows
    (tree : FileTree)
    (root : List UInt8)
    (session : Session) : Prop where
  cwd : session.cwd = (lineSession tree root session.received).cwd
  inStep : InStep tree root session
  running : session.running = true →
    (lineSession tree root session.received).running = true

theorem follows_start : Follows tree root Session.start :=
  ⟨rfl, ⟨rfl, rfl⟩, fun _ => rfl⟩

/-- The bytes behind a newline do not reach the command. -/
theorem commandText_append_newline (line rest : List UInt8) :
    commandText (line ++ newline :: rest) = commandText line := by
  have stops : (newline :: rest).takeWhile
      (fun byte => byte ≠ 0 && byte ≠ newline) = [] := by
    simp [newline]
  unfold commandText
  rw [List.takeWhile_append, stops, List.append_nil]
  split
  · rename_i whole
    rw [(List.takeWhile_prefix _).eq_of_length whole]
  · rfl

/-- A line behind an unfinished one is served after the lines before it. -/
theorem lineSession_append_line
    (received : List UInt8)
    {line : List UInt8}
    (unseparated : newline ∉ line)
    (rest : List UInt8) :
    lineSession tree root (received ++ (line ++ newline :: rest)) =
      (lineSession tree root received).serve tree root
        ((leftover newline [] received ++ line) :: lines newline rest) := by
  unfold lineSession
  rw [lines, completed_append, completed_line unseparated, serve_append]

/-- Two sessions at one place stay together when the commands agree. -/
theorem handle_congr
    (tree : FileTree)
    (root : List UInt8)
    {first second : Session}
    (sameCwd : first.cwd = second.cwd)
    (same : SameAnswers first second)
    {left right : List UInt8}
    (sameCommand : commandText left = commandText right) :
    (first.handle tree root left).cwd = (second.handle tree root right).cwd ∧
      (first.handle tree root left).commands =
        (second.handle tree root right).commands ∧
      (first.handle tree root left).sent =
        (second.handle tree root right).sent ∧
      (first.handle tree root left).running =
        (second.handle tree root right).running := by
  simp only [Session.handle, sameCwd, same.1, same.2, sameCommand, and_self]

theorem follows_step
    {session next : Session}
    {event : SessionEvent}
    (follows : Follows tree root session)
    (meets : CompletesOneLine session event)
    (stepped : (sessionMachine tree root).step session event = some next) :
    Follows tree root next := by
  by_cases receives : ∃ chunk, event = .received chunk
  · obtain ⟨chunk, rfl⟩ := receives
    obtain ⟨running, rfl⟩ := sessionStep_received stepped
    obtain ⟨line, rest, rfl, unseparated, sameText, only⟩ := meets
    have reference : lineSession tree root
        (session.received ++ (line ++ newline :: rest)) =
          ((lineSession tree root session.received).handle tree root
            (leftover newline [] session.received ++ line)).serve tree root
              (lines newline rest) := by
      rw [lineSession_append_line session.received unseparated,
        serve_cons (follows.running running)]
    -- The rest of the chunk is not read: it has no line, or `QUIT` came first.
    have idle : ((lineSession tree root session.received).handle tree root
          (leftover newline [] session.received ++ line)).serve tree root
            (lines newline rest) =
        (lineSession tree root session.received).handle tree root
          (leftover newline [] session.received ++ line) := by
      by_cases separated : newline ∈ rest
      · apply serve_of_ended
        have quits := (answer_ends_iff tree root
          (lineSession tree root session.received).cwd _).mpr (only separated)
        simp only [Session.handle, sameText, quits, Bool.not_true]
      · rw [lines, completed_of_not_mem separated, Session.serve]
    rw [idle] at reference
    have sameCommand : commandText (line ++ newline :: rest) =
        commandText (leftover newline [] session.received ++ line) := by
      rw [commandText_append_newline, sameText]
    obtain ⟨cwd, commands, sent, ends⟩ := handle_congr tree root
      follows.cwd follows.inStep sameCommand
    rw [← reference] at cwd commands sent ends
    exact ⟨cwd, ⟨commands, sent⟩, fun still => ends ▸ still⟩
  · obtain ⟨running, ends, rfl⟩ := sessionStep_silent
      (fun chunk same => receives ⟨chunk, same⟩) stepped
    exact ⟨follows.cwd, follows.inStep, fun _ => follows.running running⟩

/-- Several lines with the effect of one command: the first is the command,
and only the end of the session keeps the others from being served. -/
theorem command_of_serve
    {session : Session}
    {line cmd : List UInt8}
    {chunks : List (List UInt8)}
    (logs : ((session.handle tree root line).serve tree root chunks).commands =
      if cmd = [] then session.commands else session.commands ++ [cmd])
    (size : ((session.handle tree root line).serve tree root
        chunks).sent.length =
      session.sent.length + (answer tree root session.cwd cmd).sent.length) :
    commandText line = cmd ∧
      (chunks ≠ [] → (answer tree root session.cwd cmd).ends = true) := by
  have grows := handle_sent_length tree root session line
  have same : commandText line = cmd := by
    by_cases blankLine : commandText line = []
    · by_cases blank : cmd = []
      · rw [blankLine, blank]
      · -- The prompt for the blank line comes on top of the answer.
        have sameLog : (session.handle tree root line).commands =
            session.commands := by
          simp [Session.handle, blankLine]
        have sameCwd : (session.handle tree root line).cwd =
            session.cwd := by
          simp [Session.handle, blankLine, answer_nil]
        rw [if_neg blank, ← sameLog] at logs
        have later := answer_le_serve logs
        have prompted := answer_sent_pos tree root session.cwd
          (commandText line)
        rw [sameCwd] at later
        omega
    · have before := commands_prefix_serve tree root
        (session.handle tree root line) chunks
      have newLog : (session.handle tree root line).commands =
          session.commands ++ [commandText line] := by
        simp [Session.handle, blankLine]
      rw [newLog, logs] at before
      by_cases blank : cmd = []
      · rw [if_pos blank] at before
        have shorter := before.length_le
        simp only [List.length_append, List.length_singleton] at shorter
        omega
      · rw [if_neg blank, List.prefix_append_right_inj] at before
        simpa using before
  refine ⟨same, fun more => ?_⟩
  rw [same] at grows
  rw [← Bool.not_eq_false]
  intro goesOn
  have running : (session.handle tree root line).running = true := by
    simp only [Session.handle, same, goesOn, Bool.not_false]
  have later := sent_length_lt_serve tree root running more
  omega

/-- Out of step from a chunk that does not complete exactly one line. -/
theorem out_of_step
    {session next : Session}
    {event : SessionEvent}
    (follows : Follows tree root session)
    (misses : ¬CompletesOneLine session event)
    (stepped : (sessionMachine tree root).step session event = some next) :
    ¬InStep tree root next := by
  by_cases receives : ∃ chunk, event = .received chunk
  · obtain ⟨chunk, rfl⟩ := receives
    obtain ⟨running, rfl⟩ := sessionStep_received stepped
    obtain ⟨sameLog, sameSent⟩ := follows.inStep
    rintro ⟨logs, sends⟩
    have grows := handle_sent_length tree root session chunk
    change _ = (lineSession tree root (session.received ++ chunk)).commands
      at logs
    change _ = (lineSession tree root (session.received ++ chunk)).sent
      at sends
    rw [sends] at grows
    by_cases separated : newline ∈ chunk
    · obtain ⟨line, rest, rfl, unseparated⟩ :=
        List.eq_append_cons_of_mem separated
      rw [commandText_append_newline] at grows
      rw [lineSession_append_line session.received unseparated,
        serve_cons (follows.running running)] at logs grows
      simp only [Session.handle, commandText_append_newline] at logs
      rw [follows.cwd, sameSent] at grows
      rw [sameLog] at logs
      obtain ⟨sameText, ended⟩ := command_of_serve logs.symm grows
      refine misses ⟨line, rest, rfl, unseparated, sameText, ?_⟩
      intro more
      rw [← answer_ends_iff tree root]
      apply ended
      obtain ⟨other, others, rfl, unseparated⟩ :=
        List.eq_append_cons_of_mem more
      rw [lines, completed_line unseparated]
      exact List.cons_ne_nil _ _
    · -- The chunk was answered, and it completes no line.
      have unread : lineSession tree root (session.received ++ chunk) =
          lineSession tree root session.received := by
        rw [lineSession, lines, completed_append,
          completed_of_not_mem separated, List.append_nil, lineSession]
      rw [unread, sameSent] at grows
      have answered := answer_sent_pos tree root session.cwd
        (commandText chunk)
      omega
  · refine absurd ?_ misses
    cases event with
    | received chunk => exact absurd ⟨chunk, rfl⟩ receives
    | shutdown | interrupted | timedOut | pollFailed | disconnected =>
        trivial

end Runs

/-- Two cuts of a stream have the same answers, those for its lines, just when
the stream is empty or one newline; and a session is in step with the lines
received just as long as every chunk completes exactly one line. -/
theorem answers_follow_lines_iff (tree : FileTree) (root : List UInt8) :
    (∀ stream, CutsAgree tree root stream ↔
        stream = [] ∨ stream = [newline]) ∧
      ∀ events final,
        (sessionMachine tree root).run Session.start events = some final →
          ((sessionMachine tree root).EveryState (InStep tree root)
              Session.start events ↔
            (sessionMachine tree root).EveryStep CompletesOneLine
              Session.start events) := by
  refine ⟨cutsAgree_iff tree root, fun events final executed => ?_⟩
  exact Machine.everyState_iff_everyStep
    (fun _ follows => Follows.inStep follows)
    (fun _ _ _ follows meets stepped => follows_step follows meets stepped)
    (fun _ _ _ follows misses stepped => out_of_step follows misses stepped)
    follows_start executed

theorem info_line_in_step :
    (sessionMachine unreadableTree (ascii "/srv")).EveryState
      (InStep unreadableTree (ascii "/srv")) Session.start
        [.received (ascii "INFO\n")] := by
  refine ((answers_follow_lines_iff unreadableTree (ascii "/srv")).2
    [.received (ascii "INFO\n")] _ rfl).mpr ?_
  exact ⟨⟨ascii "INFO", [], rfl, by decide, rfl, nofun⟩,
    fun _ _ => trivial⟩

/-- A command and its newline are answered once when they arrive together and
twice when they do not. -/
theorem info_cut_from_its_newline :
    ¬CutsAgree unreadableTree (ascii "/srv") (ascii "INFO\n") ∧
      (Session.start.serve unreadableTree (ascii "/srv")
          [ascii "INFO\n"]).sent =
        Session.start.sent ++ ascii "Hello from 'myserver'\n>\n" ∧
      (Session.start.serve unreadableTree (ascii "/srv")
          [ascii "INFO", ascii "\n"]).sent =
        Session.start.sent ++ ascii "Hello from 'myserver'\n>\n>\n" := by
  have joined : (Session.start.serve unreadableTree (ascii "/srv")
        [ascii "INFO\n"]).sent =
      Session.start.sent ++ ascii "Hello from 'myserver'\n>\n" := by
    decide
  have split : (Session.start.serve unreadableTree (ascii "/srv")
        [ascii "INFO", ascii "\n"]).sent =
      Session.start.sent ++ ascii "Hello from 'myserver'\n>\n>\n" := by
    decide
  refine ⟨fun agree => ?_, joined, split⟩
  have same := agree [ascii "INFO\n"] [ascii "INFO", ascii "\n"]
    ⟨rfl, by decide⟩ ⟨rfl, by decide⟩
  rw [SameAnswers, joined, split, List.append_cancel_left_eq] at same
  exact absurd same.1.2 (by decide)

end FileServer
end OSaSP
