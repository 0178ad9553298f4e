import OSaSP.Foundations.LineReader
import OSaSP.Foundations.Machine
import OSaSP.FileServer.BuildPath

/-!
# One client of the file server

`client_thread` takes what one `recv` returns for one command, up to its first
newline, trims it and answers it.  Every answer but the one to `QUIT` ends with
the current directory and a `>` on a line of its own.

The served tree is a parameter: what `opendir` with `readdir`, `lstat` and
`readlink` return for a path.  `sendall` is taken to deliver what it is given.
-/

namespace OSaSP
namespace FileServer

open CString

/-- `BUF_SIZE`. -/
def bufSize : Nat := 4096

/-- The byte `'\n'`. -/
def newline : UInt8 := 10

/-- What `lstat` says of a path. -/
inductive FileKind
  | directory
  | link
  | other
  deriving DecidableEq

/-- The served tree, as the system calls show it. -/
structure FileTree extends FileSystem where
  opendir : List UInt8 → Option (List (List UInt8))
  lstat : List UInt8 → Option FileKind
  readlink : List UInt8 → Option (List UInt8)

/-! ## Answers -/

/-- What is sent for a command: lines of text, then the prompt with the
current directory unless the session ends. -/
structure Reply where
  body : List (List UInt8)
  cwd : List UInt8
  ends : Bool

/-- The prompt. -/
def prompt (cwd : List UInt8) : List UInt8 :=
  cwd ++ ascii ">\n"

/-- The bytes of an answer. -/
def Reply.sent (reply : Reply) : List UInt8 :=
  reply.body.flatMap (fun text => text ++ [newline]) ++
    if reply.ends then [] else prompt reply.cwd

/-- The text of `handle_info`. -/
def infoText : List UInt8 := ascii "Hello from 'myserver'"

/-- The line of `handle_list` for one entry of the directory at `path`, if it
prints one. -/
def listEntry
    (tree : FileTree)
    (root cwd path name : List UInt8) : Option (List UInt8) :=
  if name = ascii "." ∨ name = ascii ".." then none
  else
    let full := path ++ [slash] ++ name
    if pathBuf ≤ full.length then none
    else
      match tree.lstat full with
      | none => none
      | some .directory => some (name ++ [slash])
      | some .link =>
          match tree.readlink full with
          | none => none
          | some link =>
              let linkto := link.take (pathBuf - 1)
              match buildPath tree.toFileSystem root cwd linkto with
              | none => none
              | some target =>
                  if tree.lstat target = some .link then
                    match tree.readlink target with
                    | none | some [] => none
                    | some real2 =>
                        some (name ++ ascii " -->> " ++
                          real2.take (pathBuf - 1))
                  else some (name ++ ascii " --> " ++ linkto)
      | some .other => some name

/-- `handle_list`. -/
def handleList
    (tree : FileTree)
    (root cwd : List UInt8) : List (List UInt8) :=
  match buildPath tree.toFileSystem root cwd (ascii ".") with
  | none => [ascii "Error: Cannot access current directory."]
  | some path =>
      match tree.opendir path with
      | none => [ascii "Error: Cannot open directory."]
      | some names => names.filterMap (listEntry tree root cwd path)

/-- `cwd` after `CD ..`: what stands before its last slash. -/
def parentOf (cwd : List UInt8) : List UInt8 :=
  match strrchr cwd slash with
  | some index => cwd.take index
  | none => []

/-- `rel`: what stands in a path behind the root and a slash. -/
def relativeTo (root newp : List UInt8) : List UInt8 :=
  let rel := newp.drop root.length
  if rel.head? = some slash then rel.drop 1 else rel

/-- The command `CD` with a target. -/
def changeDirectory
    (tree : FileTree)
    (root cwd target : List UInt8) : Reply :=
  if strcasecmp target (ascii "/") = 0 then ⟨[], [], false⟩
  else if strcasecmp target (ascii "..") = 0 then
    ⟨[], parentOf cwd, false⟩
  else
    match buildPath tree.toFileSystem root cwd target with
    | some newp =>
        let rel := relativeTo root newp
        if rel.length < pathMax then ⟨[], rel, false⟩
        else
          ⟨[ascii "Error: Path too long to set as current directory."], cwd,
            false⟩
    | none =>
        ⟨[ascii "Error: Invalid path or permission denied for CD."], cwd,
          false⟩

/-- The answer to a command. -/
def answer
    (tree : FileTree)
    (root cwd cmd : List UInt8) : Reply :=
  if cmd = [] then ⟨[], cwd, false⟩
  else if strncasecmp cmd (ascii "ECHO ") 5 = 0 then
    ⟨[cmd.drop 5], cwd, false⟩
  else if strcasecmp cmd (ascii "QUIT") = 0 then ⟨[ascii "BYE"], cwd, true⟩
  else if strcasecmp cmd (ascii "INFO") = 0 then ⟨[infoText], cwd, false⟩
  else if strncasecmp cmd (ascii "CD ") 3 = 0 then
    changeDirectory tree root cwd (cmd.drop 3)
  else if strcasecmp cmd (ascii "LIST") = 0 then
    ⟨handleList tree root cwd, cwd, false⟩
  else ⟨[ascii "Unknown command"], cwd, false⟩

/-! ## The session -/

/-- `cmd`: what is left of the received bytes up to the first newline or zero
byte once it is trimmed. -/
def commandText (chunk : List UInt8) : List UInt8 :=
  trim (chunk.takeWhile fun byte => byte ≠ 0 && byte ≠ newline)

/-- The state of `client_thread`, with the commands it logged and the bytes it
sent and received so far. -/
structure Session where
  cwd : List UInt8
  running : Bool
  commands : List (List UInt8)
  sent : List UInt8
  received : List UInt8

/-- The session once the greeting is sent. -/
def Session.start : Session where
  cwd := []
  running := true
  commands := []
  sent := infoText ++ [newline] ++ prompt []
  received := []

/-- A received chunk is logged, unless it is blank, and answered. -/
def Session.handle
    (tree : FileTree)
    (root : List UInt8)
    (session : Session)
    (chunk : List UInt8) : Session :=
  let cmd := commandText chunk
  let reply := answer tree root session.cwd cmd
  { cwd := reply.cwd
    running := !reply.ends
    commands :=
      if cmd = [] then session.commands else session.commands ++ [cmd]
    sent := session.sent ++ reply.sent
    received := session.received ++ chunk }

/-- What ends a round of the loop of `client_thread`. -/
inductive SessionEvent
  | shutdown
  | interrupted
  | timedOut
  | pollFailed
  | disconnected
  | received (chunk : List UInt8)

/-- One round of the loop. -/
def sessionStep
    (tree : FileTree)
    (root : List UInt8)
    (session : Session)
    (event : SessionEvent) : Option Session :=
  if session.running then
    match event with
    | .shutdown | .pollFailed | .disconnected =>
        some { session with running := false }
    | .interrupted | .timedOut => some session
    | .received chunk =>
        if 0 < chunk.length ∧ chunk.length < bufSize then
          some (session.handle tree root chunk)
        else none
  else none

/-- The sessions of a server with some tree and root. -/
def sessionMachine
    (tree : FileTree)
    (root : List UInt8) : Machine Session SessionEvent where
  initial session := session = .start
  step := sessionStep tree root

/-! ## What the answers have in common -/

section Answers

variable (tree : FileTree) (root : List UInt8)

theorem changeDirectory_ends (cwd target : List UInt8) :
    (changeDirectory tree root cwd target).ends = false := by
  unfold changeDirectory
  split
  · rfl
  · split
    · rfl
    · cases buildPath tree.toFileSystem root cwd target with
      | none => rfl
      | some newp =>
          dsimp only
          split <;> rfl

/-- A command that begins like a keyword is at least as long. -/
theorem length_le_of_strncasecmp
    {cmd keyword : List UInt8}
    {count : Nat}
    (size : keyword.length = count)
    (begins : strncasecmp cmd keyword count = 0) :
    count ≤ cmd.length := by
  have before := (strncasecmp_eq_zero_iff cmd keyword size).mp begins
  simpa [size] using before.length_le

/-- A command that is a keyword is as long. -/
theorem length_eq_of_strcasecmp
    {cmd keyword : List UInt8}
    (same : strcasecmp cmd keyword = 0) :
    cmd.length = keyword.length := by
  have mapped := congrArg List.length ((strcasecmp_eq_zero_iff _ _).mp same)
  simpa using mapped

/-- A short keyword does not begin like an `ECHO`. -/
theorem not_echo_of_keyword
    {cmd keyword : List UInt8}
    (same : strcasecmp cmd keyword = 0)
    (short : keyword.length < 5) :
    strncasecmp cmd (ascii "ECHO ") 5 ≠ 0 := by
  intro echoes
  have size := length_eq_of_strcasecmp same
  have longer : 5 ≤ cmd.length := length_le_of_strncasecmp rfl echoes
  omega

theorem answer_of_quit
    {cmd : List UInt8}
    (quits : strcasecmp cmd (ascii "QUIT") = 0)
    (cwd : List UInt8) :
    answer tree root cwd cmd = ⟨[ascii "BYE"], cwd, true⟩ := by
  have size : cmd.length = 4 := length_eq_of_strcasecmp quits
  have notBlank : cmd ≠ [] := by
    rintro rfl
    cases size
  have notEcho := not_echo_of_keyword quits (by decide)
  rw [answer, if_neg notBlank, if_neg notEcho, if_pos quits]

theorem answer_of_echo
    {cmd : List UInt8}
    (echoes : strncasecmp cmd (ascii "ECHO ") 5 = 0)
    (cwd : List UInt8) :
    answer tree root cwd cmd = ⟨[cmd.drop 5], cwd, false⟩ := by
  have notBlank : cmd ≠ [] := by
    rintro rfl
    exact absurd echoes (by decide)
  rw [answer, if_neg notBlank, if_pos echoes]

theorem answer_of_list
    {cmd : List UInt8}
    (lists : strcasecmp cmd (ascii "LIST") = 0)
    (cwd : List UInt8) :
    answer tree root cwd cmd = ⟨handleList tree root cwd, cwd, false⟩ := by
  have same := (strcasecmp_eq_zero_iff _ _).mp lists
  have notBlank : cmd ≠ [] := by
    rintro rfl
    exact absurd same (by decide)
  have notCd : strncasecmp cmd (ascii "CD ") 3 ≠ 0 := by
    intro changes
    have begins := (strncasecmp_eq_zero_iff cmd (ascii "CD ") rfl).mp changes
    rw [same] at begins
    exact absurd begins (by decide)
  have notEqual : ∀ keyword : List UInt8,
      (ascii "LIST").map tolower ≠ keyword.map tolower →
        strcasecmp cmd keyword ≠ 0 := by
    intro keyword different equal
    rw [strcasecmp_eq_zero_iff, same] at equal
    exact different equal
  rw [answer, if_neg notBlank,
    if_neg (not_echo_of_keyword lists (by decide)),
    if_neg (notEqual (ascii "QUIT") (by decide)),
    if_neg (notEqual (ascii "INFO") (by decide)), if_neg notCd,
    if_pos lists]

/-- `CD` is none of the other commands. -/
theorem answer_of_cd
    {cmd : List UInt8}
    (changes : strncasecmp cmd (ascii "CD ") 3 = 0)
    (cwd : List UInt8) :
    answer tree root cwd cmd =
      changeDirectory tree root cwd (cmd.drop 3) := by
  have begins := (strncasecmp_eq_zero_iff cmd (ascii "CD ") rfl).mp changes
  have notBlank : cmd ≠ [] := by
    rintro rfl
    exact absurd begins (by decide)
  have notEcho : strncasecmp cmd (ascii "ECHO ") 5 ≠ 0 := by
    intro echoes
    have other := (strncasecmp_eq_zero_iff cmd (ascii "ECHO ") rfl).mp echoes
    rcases List.prefix_or_prefix_of_prefix begins other with one | one
    · exact absurd one (by decide)
    · exact absurd one (by decide)
  have notEqual : ∀ keyword : List UInt8,
      ¬(ascii "CD ").map tolower <+: keyword.map tolower →
        strcasecmp cmd keyword ≠ 0 := by
    intro keyword different same
    rw [(strcasecmp_eq_zero_iff _ _).mp same] at begins
    exact different begins
  rw [answer, if_neg notBlank, if_neg notEcho,
    if_neg (notEqual (ascii "QUIT") (by decide)),
    if_neg (notEqual (ascii "INFO") (by decide)), if_pos changes]

/-- Only `CD` changes the current directory. -/
theorem answer_cwd
    {cmd : List UInt8}
    (others : strncasecmp cmd (ascii "CD ") 3 ≠ 0)
    (cwd : List UInt8) :
    (answer tree root cwd cmd).cwd = cwd := by
  unfold answer
  split_ifs <;> rfl

/-- Only `QUIT` ends the session. -/
theorem answer_ends_iff (cwd cmd : List UInt8) :
    (answer tree root cwd cmd).ends = true ↔
      strcasecmp cmd (ascii "QUIT") = 0 := by
  constructor
  · intro ends
    unfold answer at ends
    split_ifs at ends with blank echoes quits informs changes lists
    · exact quits
    · rw [changeDirectory_ends] at ends
      cases ends
  · intro quits
    rw [answer_of_quit tree root quits]

/-- Every command is answered. -/
theorem answer_sent_pos (cwd cmd : List UInt8) :
    0 < (answer tree root cwd cmd).sent.length := by
  cases ends : (answer tree root cwd cmd).ends with
  | false =>
      rw [Reply.sent, ends, List.length_append, if_neg (by simp)]
      have promptSize : (prompt (answer tree root cwd cmd).cwd).length =
          (answer tree root cwd cmd).cwd.length + 2 := List.length_append
      omega
  | true =>
      rw [answer_ends_iff] at ends
      rw [answer_of_quit tree root ends]
      exact Nat.succ_pos 3

/-- A blank command is answered by the prompt alone. -/
theorem answer_nil (cwd : List UInt8) :
    answer tree root cwd [] = ⟨[], cwd, false⟩ := by
  rw [answer, if_pos rfl]

/-- No command has one or two bytes. -/
theorem answer_of_short
    {cmd : List UInt8}
    (notBlank : cmd ≠ [])
    (short : cmd.length ≤ 2)
    (cwd : List UInt8) :
    answer tree root cwd cmd =
      ⟨[ascii "Unknown command"], cwd, false⟩ := by
  have notPrefix : ∀ (keyword : List UInt8) (count : Nat),
      keyword.length = count → 2 < count →
        strncasecmp cmd keyword count ≠ 0 := by
    intro keyword count size long begins
    have longer := length_le_of_strncasecmp size begins
    omega
  have notEqual : ∀ keyword : List UInt8, 2 < keyword.length →
      strcasecmp cmd keyword ≠ 0 := by
    intro keyword long same
    have size := length_eq_of_strcasecmp same
    omega
  rw [answer, if_neg notBlank,
    if_neg (notPrefix (ascii "ECHO ") 5 rfl (by decide)),
    if_neg (notEqual (ascii "QUIT") (by decide)),
    if_neg (notEqual (ascii "INFO") (by decide)),
    if_neg (notPrefix (ascii "CD ") 3 rfl (by decide)),
    if_neg (notEqual (ascii "LIST") (by decide))]

end Answers

/-! ## Rounds of the loop -/

section Rounds

variable {tree : FileTree} {root : List UInt8}

/-- What a round of the loop that receives does. -/
theorem sessionStep_received
    {session next : Session}
    {chunk : List UInt8}
    (stepped : (sessionMachine tree root).step session (.received chunk) =
      some next) :
    session.running = true ∧ next = session.handle tree root chunk := by
  change sessionStep tree root session (.received chunk) = _ at stepped
  simp only [sessionStep, Option.ite_none_right_eq_some,
    Option.some.injEq] at stepped
  exact ⟨stepped.1, stepped.2.2.symm⟩

/-- Any other round receives and sends nothing. -/
theorem sessionStep_silent
    {session next : Session}
    {event : SessionEvent}
    (silent : ∀ chunk, event ≠ .received chunk)
    (stepped : (sessionMachine tree root).step session event = some next) :
    session.running = true ∧
      ∃ running, next = { session with running := running } := by
  change sessionStep tree root session event = _ at stepped
  unfold sessionStep at stepped
  split at stepped
  · rename_i running
    refine ⟨running, ?_⟩
    cases event with
    | received chunk => exact absurd rfl (silent chunk)
    | shutdown | pollFailed | disconnected =>
        exact ⟨false, (Option.some.inj stepped).symm⟩
    | interrupted | timedOut =>
        exact ⟨session.running, (Option.some.inj stepped).symm⟩
  · cases stepped

end Rounds

/-- A tree in which no path can be opened. -/
def unreadableTree : FileTree where
  resolve _ := none
  opendir _ := none
  lstat _ := none
  readlink _ := none

end FileServer
end OSaSP
