import PgliteBuild.Foundation.CString
import PgliteBuild.InteractiveOne.State

/-! # `interactive_file`

The reader of `pgl_mains.c` that runs the post-bootstrap script of `initdb`: it cuts the feed into
commands and dispatches each as a simple query. An error jumps to the `sigsetjmp` of
`RePostgresSingleUserMain`, which cleans up and starts the reader again, with the feed where it was. -/

namespace PgliteBuild

open CStr Effect

variable {σ : Type} (B : Backend σ)

/-- What `interactive_file` did with a command. -/
inductive FeedEvent where
  /-- One of the two REVOKE commands. -/
  | skipped (command : CString)
  /-- The command reached the protocol switch. -/
  | dispatch (query : CString)
  deriving DecidableEq, Repr

/-- The globals that the reader and its error handler use. -/
structure Feed (σ : Type) where
  /-- What is still to be read from `single_mode_feed`, when it is open. -/
  singleModeFeed : Option (List UInt8)
  db : σ
  useSemiNewlineNewline : Bool
  doingExtendedQueryMessage : Bool
  ignoreTillSync : Bool
  sendReadyForQuery : Bool
  pqCommReadingMsg : Bool
  errordata : Option ErrorReport
  /-- What `EmitErrorReport` wrote. -/
  log : List ErrorReport
  trace : List FeedEvent

/-- The state before a feed is opened, with the switch `-j` given. -/
def Feed.start (db : σ) : Feed σ where
  singleModeFeed := none
  db := db
  useSemiNewlineNewline := true
  doingExtendedQueryMessage := false
  ignoreTillSync := false
  sendReadyForQuery := true
  pqCommReadingMsg := false
  errordata := none
  log := []
  trace := []

/-- Computations of the single user mode. -/
abbrev FeedM (σ : Type) (α : Type) := EStateM Stop (Feed σ) α

/-- `startswith` of `pgl_tools.h`. -/
def startswith (str pre : CString) : Bool :=
  if pre.length > str.length then false else strncmpEq str pre pre.length

/-- Whether a command is one of those that `interactive_file` skips. -/
def sqlSkip (inBuf : CString) : Bool :=
  startswith inBuf (ascii "REVOKE ALL ON pg_largeobject FROM PUBLIC;") ||
    startswith inBuf (ascii "REVOKE CREATE,TEMPORARY ON DATABASE template1 FROM public;")

/-- The inner loop: read from the stream into `inBuf` up to the end of a command. The results are
`inBuf`, the last character read, or `none` for `EOF`, and the rest of the stream. -/
def readCommand (semi : Bool) : List UInt8 → List UInt8 → List UInt8 × Option UInt8 × List UInt8
  | [], inBuf => (inBuf, none, [])
  | c :: stream, inBuf =>
      if c = 10 then
        if semi then
          if 1 < inBuf.length ∧ inBuf[inBuf.length - 1]? = some 10 ∧
              inBuf[inBuf.length - 2]? = some 59 then
            -- the second newline is dropped
            (inBuf, some c, stream)
          else readCommand semi stream (inBuf ++ [c])
        else if 0 < inBuf.length ∧ inBuf[inBuf.length - 1]? = some 92 then
          readCommand semi stream inBuf.dropLast
        else (inBuf ++ [10], some c, stream)
      else readCommand semi stream (inBuf ++ [c])

/-- `case 'Q':` of the protocol switch. -/
def simpleQuery (inBuf : List UInt8) : FeedM σ Unit := do
  let queryString := cstr inBuf
  -- `pq_getmsgend`
  if queryString.length + 1 ≠ inBuf.length then
    modify fun s => { s with errordata := some ⟨.protocolViolation, "invalid message format"⟩ }
    throw .error
  modify fun s => { s with trace := s.trace ++ [.dispatch queryString] }
  let r := B.exec (← get).db .query inBuf
  modify fun s => { s with db := r.next }
  match r.error with
  | some e =>
    modify fun s => { s with errordata := some e }
    throw .error
  | none => modify fun s => { s with sendReadyForQuery := true }

/-- What the outer loop does with a command. -/
def feedCommand (inBuf : List UInt8) : FeedM σ Unit := do
  if sqlSkip (cstr inBuf) then
    modify fun s => { s with trace := s.trace ++ [.skipped (cstr inBuf)] }
  else if (← get).ignoreTillSync then pure ()
  else simpleQuery B inBuf

/-- The outer loop, `while (c!=EOF)`. -/
def interactiveFileLoop : ℕ → FeedM σ Unit
  | 0 => throw .outOfFuel
  | n + 1 => do
    match (← get).singleModeFeed with
    | none => throw .trap
    | some stream =>
      let r := readCommand (← get).useSemiNewlineNewline stream []
      modify fun s => { s with singleModeFeed := some r.2.2 }
      if r.2.1 = none ∧ r.1 = [] then pure ()
      else
        feedCommand B (r.1 ++ [0])
        if r.2.1 = none then pure () else interactiveFileLoop n

/-- `interactive_file`. Every round of its loop reads something. -/
def interactiveFile : FeedM σ Unit := do
  modify fun s => { s with doingExtendedQueryMessage := false }
  interactiveFileLoop B (((← get).singleModeFeed.getD []).length + 1)

/-- The branch of `sigsetjmp` that an error takes with `INITDB_SINGLE` defined. -/
def singleUserHandler : FeedM σ Unit := do
  modify fun s => { s with
    log := s.log ++ s.errordata.toList
    db := B.abortTransaction s.db
    errordata := none }
  if (← get).doingExtendedQueryMessage then
    modify fun s => { s with ignoreTillSync := true }
  if (← get).pqCommReadingMsg then throw (.fatal syncLost)
  if !(← get).ignoreTillSync then
    modify fun s => { s with sendReadyForQuery := true }

/-- The code of `RePostgresSingleUserMain` behind its `sigsetjmp`. -/
def singleUserMain : FeedM σ Unit := do
  if !(← get).ignoreTillSync then
    modify fun s => { s with sendReadyForQuery := true }
  interactiveFile B
  modify fun s => { s with singleModeFeed := none }

/-- The jumps of `RePostgresSingleUserMain`: an error starts the reader again. -/
def singleUserLoop : ℕ → FeedM σ Unit
  | 0 => throw .outOfFuel
  | n + 1 => fun s =>
    match singleUserMain B s with
    | .error .error s' => (do
        singleUserHandler B
        singleUserLoop n) s'
    | r => r

/-- `RePostgresSingleUserMain`, with the contents of `IDB_PIPE_SINGLE` if that file exists. Every
error comes after something was read. -/
def rePostgresSingleUserMain (idbPipeSingle : Option (List UInt8)) : FeedM σ Unit := do
  modify fun s => { s with singleModeFeed := idbPipeSingle }
  singleUserLoop B ((idbPipeSingle.getD []).length + 1)

end PgliteBuild
