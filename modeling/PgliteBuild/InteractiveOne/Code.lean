import PgliteBuild.Foundation.Jumps
import PgliteBuild.InteractiveOne.State

/-! # `interactive_one` and the functions around it

The code of `interactive_one.c`, of the protocol switch `pg_proto.c` and of the error handler
`pgl_sjlj.c`, with the upstream functions they call on the connection (`SocketBackend`,
`ReadyForQuery`, `ProcessNotifyInterrupt`, the message reader of COPY FROM STDIN).

`interactive_one` is a function of labels and jumps: `block` is the code from one label to the next,
and `run` follows the jumps, with the long jump of an error to the handler among them. `run` takes a
step budget, since a message handler that reads past the end of its packet can make the loop read the
same packet for ever. -/

namespace PgliteBuild

open Effect Framing Jumps

variable {σ α : Type} (b : Build) (B : Backend σ)

/-! ## Reports and messages -/

/-- `ereport(ERROR)`. -/
def ereport (errcode : Errcode) (errmsg : String) : PgM σ α := do
  modify fun s => { s with errordata := some ⟨errcode, errmsg⟩ }
  throw .error

/-- Put one protocol message on the connection. -/
def putmessage (source : Source) (msgtype : UInt8) (body : List UInt8) : PgM σ Unit := do
  liftComm (pqPutmessage msgtype body)
  record (.put source (msgtype :: encodeBody body))

/-- The message reader of COPY FROM STDIN. An error here leaves the message being read. -/
def copyRead : PgM σ Unit := do
  liftComm (pqStartmsgread b)
  match ← liftRecv (pqGetbyte b) with
  | none =>
    ereport .connectionFailure "unexpected EOF on client connection with an open transaction"
  | some t =>
    match (FrontendMsg.ofCode t).filter FrontendMsg.inCopy with
    | none =>
      ereport .protocolViolation
        ("unexpected message type " ++ toString t.toNat ++ " during COPY from stdin")
    | some m =>
      match ← liftRecv (pqGetmessage b m.maxlen) with
      | none =>
        ereport .connectionFailure "unexpected EOF on client connection with an open transaction"
      | some _ => pure ()

/-- One action of backend code. -/
def runAction (source : Source) : Action → PgM σ Unit
  | .putbytes bytes => do
    liftComm (internalPutbytes bytes)
    record (.put source bytes)
  | .flush => liftComm internalFlush
  | .copyRead => copyRead b

/-- The actions of backend code, in order. -/
def runActions (source : Source) : List Action → PgM σ Unit
  | [] => pure ()
  | a :: as => do
    runAction b source a
    runActions source as

/-- Let the backend respond. It uses the connection only when `whereToSendOutput` is `DestRemote`;
otherwise its output goes to the terminal. -/
def respond (source : Source) (r : Response σ) : PgM σ Unit := do
  if (← get).whereToSendOutput = .remote then runActions b source r.actions
  modify fun s => { s with
    db := r.next
    notifyInterruptPending := s.notifyInterruptPending || r.notify }
  match r.error with
  | none => pure ()
  | some e => ereport e.errcode e.errmsg

/-- `ReadyForQuery`. -/
def readyForQuery (dest : CommandDest) : PgM σ Unit := do
  record (.raising .readyForQuery)
  if dest = .remote then
    putmessage .ready 90 [(B.blockState (← get).db).statusCode]
    liftComm internalFlush

/-- `ProcessNotifyInterrupt`: nothing inside a transaction, else deliver what is pending. -/
def processNotifyInterrupt : PgM σ Unit := do
  record (.raising .processNotifyInterrupt)
  if B.blockState (← get).db = .idle then
    modify fun s => { s with notifyInterruptPending := false }
    respond b .notification (B.processNotify (← get).db)

/-- `EmitErrorReport` and `FlushErrorState`. -/
def emitErrorReport : PgM σ Unit := do
  match (← get).errordata with
  | none => pure ()
  | some e =>
    if (← get).whereToSendOutput = .remote then
      putmessage .error 69 (B.errorBody e)
      liftComm internalFlush
    modify fun s => { s with errordata := none }

/-- `clear_error`. -/
def clearError : PgM σ Unit := do
  emitErrorReport B
  modify fun s => { s with db := B.abortTransaction s.db }
  if (← get).doingExtendedQueryMessage then
    modify fun s => { s with ignoreTillSync := true }
  if (← get).comm.pqCommReadingMsg then throw (.fatal syncLost)
  if !(← get).ignoreTillSync then
    modify fun s => { s with sendReadyForQuery := true }

/-! ## Startup and authentication -/

/-- Read and drop `n` bytes. -/
def discardBytes : ℕ → PgM σ Unit
  | 0 => pure ()
  | n + 1 => do
    let _ ← liftRecv (pqGetbyte b)
    discardBytes n

/-- `discard_input`. -/
def discardInput : PgM σ Unit := do
  if (← get).comm.cmaRsize = 0 then pure ()
  else
    liftComm (pqStartmsgread b)
    discardBytes b (← get).comm.cmaRsize.toNat
    liftComm pqEndmsgread

/-- `startup_auth`: ask for an MD5 password. `ProcessStartupPacket` is a stub that succeeds. -/
def startupAuth : PgM σ Unit := do
  record (.raising .startupAuth)
  modify fun s => { s with sendReadyForQuery := false }
  modify fun s => { s with sfConnected := s.sfConnected + 1 }
  discardInput b
  modify fun s => { s with clientAuthInProgress := true }
  putmessage .auth 82 (word32 5 ++ [0x01, 0x23, 0x45, 0x56])
  liftComm internalFlush

/-- `strlen` of a buffer that is followed by a NUL byte. -/
def strlen (bs : List UInt8) : ℕ := (bs.takeWhile (· ≠ 0)).length

/-- `recv_password_packet`; `none` is a null pointer. -/
def recvPasswordPacket : PgM σ (Option (List UInt8)) := do
  liftComm (pqStartmsgread b)
  match ← liftRecv (pqGetbyte b) with
  | none => pure none
  | some t =>
    if t ≠ 112 then
      ereport .protocolViolation
        ("expected password response, got message type " ++ toString t.toNat)
    else
      match ← liftRecv (pqGetmessage b 65535) with
      | none => pure none
      | some body =>
        if strlen body + 1 ≠ body.length then
          ereport .protocolViolation "invalid password packet size"
        else if body.length = 1 then
          ereport .invalidPassword "empty password returned by client"
        else pure (some body)

/-- Put one message for each body. -/
def putmessages (source : Source) (msgtype : UInt8) : List (List UInt8) → PgM σ Unit
  | [] => pure ()
  | body :: bodies => do
    putmessage source msgtype body
    putmessages source msgtype bodies

/-- `startup_pass`. -/
def startupPass (check : Bool) : PgM σ Unit := do
  record (.raising .startupPass)
  if check then
    -- `pfree` of the null pointer that `recv_password_packet` returns at end of input traps
    match ← recvPasswordPacket b with
    | none => throw .trap
    | some _ => pure ()
  else discardInput b
  modify fun s => { s with clientAuthInProgress := false }
  putmessage .auth 82 (word32 0)
  putmessages .auth 83 (B.gucReport (← get).db)
  putmessage .auth 75 B.backendKey
  modify fun s => { s with sendReadyForQuery := true, ignoreTillSync := false }

/-! ## Messages -/

/-- `SocketBackend`: read a message into `inBuf`; `none` is `EOF`. -/
def socketBackend : PgM σ (Option FrontendMsg) := do
  record (.raising .socketBackend)
  liftComm (pqStartmsgread b)
  match ← liftRecv (pqGetbyte b) with
  | none =>
    if B.blockState (← get).db = .idle then
      modify fun s => { s with whereToSendOutput := .none }
    pure none
  | some t =>
    match FrontendMsg.ofCode t with
    | none => throw (.fatal ("invalid frontend message type " ++ toString t.toNat))
    | some m =>
      modify fun s => { s with
        doingExtendedQueryMessage := m.extended
        ignoreTillSync := s.ignoreTillSync && !m.endsSkip }
      match ← liftRecv (pqGetmessage b m.maxlen) with
      | none => pure none
      | some body =>
        modify fun s => { s with inBuf := body }
        pure (some m)

/-- `case EOF:` and `case 'X':` of the protocol switch. -/
def closeConnection : PgM σ Unit :=
  modify fun s => { s with
    whereToSendOutput := if s.whereToSendOutput = .remote then .none else s.whereToSendOutput
    sfConnected := s.sfConnected - 1
    isRepl := false
    ignoreTillSync := false
    sendReadyForQuery := false
    pipelining := false }

/-- The test lines after Bind, Execute, Close and Describe. -/
def deferReadyForQuery : PgM σ Unit :=
  modify fun s => { s with sendReadyForQuery := s.sendReadyForQuery && !s.pipelining }

/-- The protocol switch of `pg_proto.c` inside `interactive_one`; `true` takes the shortcut to
`wire_flush`. -/
def protoSwitch (firstchar : Option FrontendMsg) : PgM σ Bool := do
  record (.raising .messageSwitch)
  let s ← get
  match firstchar with
  | none =>
    closeConnection
    pure true
  | some m =>
    record (.dispatch m s.inBuf)
    match m with
    | .query | .functionCall | .sync =>
      respond b .message (B.exec s.db m s.inBuf)
      modify fun s => { s with sendReadyForQuery := true }
      pure false
    | .parse =>
      respond b .message (B.exec s.db m s.inBuf)
      modify fun s => { s with sendReadyForQuery := false }
      pure false
    | .bind | .execute | .describe =>
      respond b .message (B.exec s.db m s.inBuf)
      deferReadyForQuery
      pure false
    | .close =>
      respond b .message (B.exec s.db m s.inBuf)
      if (← get).whereToSendOutput = .remote then putmessage .message 51 []
      deferReadyForQuery
      pure false
    | .flush =>
      -- `pq_getmsgend` allows no contents
      if s.inBuf ≠ [] then ereport .protocolViolation "invalid message format"
      else
        if s.whereToSendOutput = .remote then liftComm internalFlush
        pure false
    | .terminate =>
      closeConnection
      pure true
    | .copyData | .copyDone | .copyFail => pure false

/-! ## The labels of `interactive_one` -/

/-- The labels of `interactive_one`; `loop` is the head of its `while (pipelining)`. -/
inductive Label where
  | incoming | loop | resumeOnError | wireFlush | returnEarly
  deriving DecidableEq, Repr

/-- The lines of the loop that fetch a message. -/
def nextMessage : PgM σ (Option FrontendMsg) := do
  if (← get).isWire then
    let firstchar ← socketBackend b B
    modify fun s => { s with pipelining := decide (0 < s.comm.pqBufferRemainingData) }
    pure firstchar
  else
    modify fun s => { s with inBuf := s.inBuf ++ [0] }
    pure (some .query)

/-- The lines of the loop after the protocol switch. -/
def betweenMessages : PgM σ Unit := do
  if (← get).pipelining then
    modify fun s => { s with pipelining := decide (0 < s.comm.pqBufferRemainingData) }
    if (← get).pipelining && (← get).sendReadyForQuery then
      readyForQuery B (← get).whereToSendOutput
      modify fun s => { s with sendReadyForQuery := false }

/-- One round of the loop. -/
def loopRound : PgM σ Label := do
  if (← get).isRepl then
    modify fun s => { s with pipelining := false, whereToSendOutput := .debug }
  if (← get).isWire && (← get).peek = some 0 then
    startupAuth b
    pure .resumeOnError
  else if (← get).isWire && (← get).peek = some 112 then
    startupPass b B true
    pure .resumeOnError
  else
    let firstchar ← nextMessage b B
    -- `ProcessClientReadInterrupt` does nothing here, since `DoingCommandRead` was just cleared
    if (← get).ignoreTillSync && firstchar.any (· ≠ .sync) then pure .loop
    else if ← protoSwitch b B firstchar then pure .wireFlush
    else
      betweenMessages B
      pure .loop

/-- `fclose(SOCKET_FILE)`, and `rename(PGS_OLOCK, PGS_OUT)` if `publish`. -/
def closeSocketFile (publish : Bool) : PgM σ Unit := do
  match (← get).comm.socketFile with
  | none => throw .trap
  | some content =>
    modify fun s => { s with comm := { s.comm with socketFile := none, pgsOlock := some content } }
    if publish then
      modify fun s => { s with comm := { s.comm with pgsOut := s.comm.pgsOlock, pgsOlock := none } }
      record .rename

/-- The last ReadyForQuery of a packet. -/
def lastReadyForQuery : PgM σ Unit := do
  if (← get).sendReadyForQuery then
    readyForQuery B .remote
    modify fun s => { s with sendReadyForQuery := false }

/-- The first lines of `wire_flush`: pending notifications, and the last ReadyForQuery. -/
def finishReply : PgM σ Unit := do
  if !(← get).clientAuthInProgress then
    if (← get).notifyInterruptPending then processNotifyInterrupt b B
    lastReadyForQuery B

/-- The other lines of `wire_flush`: the reply is handed over to the host. -/
def handOver : PgM σ Unit := do
  if 0 < (← get).comm.socketData then
    if (← get).comm.sockfiles then modify fun s => { s with channel := -1 }
    else
      modify fun s => { s with cmaWsize := s.comm.socketData, channel := s.comm.cmaRsize + 2 }
    if (← get).comm.socketFile.isSome then
      closeSocketFile (← get).comm.sockfiles
    modify fun s => { s with comm := { s.comm with socketData := 0 } }
  else
    modify fun s => { s with cmaWsize := 0 }
    if (← get).comm.sockfiles then closeSocketFile true

/-- The code from `wire_flush` to `return_early`. -/
def wireFlush : PgM σ Unit := do
  record .wireFlush
  finishReply b B
  handOver

/-- The code from `return_early` on: close and unlink `PGS_IN`, free the memory area. -/
def returnEarly : PgM σ Unit :=
  modify fun s => { s with
    comm := { s.comm with
      pgsIn := if s.fp then none else s.comm.pgsIn
      cmaRsize := 0
      mem := s.comm.mem.write ⟨.cma, 1⟩ [0] }
    fp := false
    canaryEx := 0 }

/-- The code from a label to the next; `none` returns. -/
def block : Label → PgM σ (Option Label)
  | .incoming => do
    if b.sigsetjmp then
      modify fun s => { s with armed := true }
      record .sigsetjmp
    pure (some .loop)
  | .loop => do
    if (← get).pipelining then
      let next ← loopRound b B
      pure (some next)
    else pure (some .resumeOnError)
  | .resumeOnError => do
    if (← get).isRepl then
      record .prompt
      pure (some .returnEarly)
    else pure (some .wireFlush)
  | .wireFlush => do
    wireFlush b B
    pure (some .returnEarly)
  | .returnEarly => do
    returnEarly
    pure none

/-- The branch of `sigsetjmp` that a long jump takes. -/
def handler : PgM σ Label := do
  -- what the jump leaves of `pipelining`, which is true at every `sigsetjmp`
  modify fun s => { s with pipelining := s.pipelining || b.pipeliningRestored }
  clearError B
  if 0 < (← get).comm.pqBufferRemainingData then
    if 8 < (← get).canaryEx then throw .abort
    modify fun s => { s with canaryEx := s.canaryEx + 1 }
    pure .incoming
  else pure .wireFlush

/-- Where control goes after the code at a label: to the next label, or with an error raised while
this activation's handler is set, to where the handler leads. -/
def step (l : Label) : PgM σ (Option Label) := fun s =>
  match block b B l s with
  | .ok next s' => .ok next s'
  | .error .error s' =>
    if s'.armed then
      match handler b B s' with
      | .ok next s'' => .ok (some next) s''
      | .error e s'' => .error e s''
    else .error .error s'
  | .error e s' => .error e s'

/-- Follow the jumps from a label until the activation returns. -/
def run : ℕ → Label → PgM σ Unit := follow (step b B) .outOfFuel

/-! ## Entry -/

/-- `io_init`, with the initialisation of `pq_init`. -/
def ioInit (s : State σ) : State σ :=
  { s with
    clientAuthInProgress := false
    whereToSendOutput := .remote
    myProcPort := true
    comm := { s.comm with
      pqSendBufferSize := b.sendBufferSize
      pqSendBuffer := ⟨.sendAlloc, 0⟩
      pqRecvBuffer := ⟨.recvStatic, 0⟩
      pqSendPointer := 0
      pqRecvPointer := 0
      pqRecvLength := 0
      pqCommReadingMsg := false
      socketFile := none
      socketData := 0 } }

/-- Open `PGS_OLOCK` for writing unless it is open. -/
def Comm.openSocketFile (c : Comm) : Comm :=
  match c.socketFile with
  | none => { c with socketFile := some [], pgsOlock := some [] }
  | some _ => c

/-- The code before the packet is looked at: pending notifications of an idle session. -/
def prologue : PgM σ Unit := do
  if (← get).sendReadyForQuery then
    if B.blockState (← get).db = .idle ∧ (← get).notifyInterruptPending then
      processNotifyInterrupt b B
    modify fun s => { s with sendReadyForQuery := false }

/-- `strlen(IO)`, from an address on, over at most `n` bytes. -/
def Comm.strlenIO (c : Comm) : ℕ → ℕ → ℕ
  | 0, _ => 0
  | n + 1, address => if c.mem .cma address = 0 then 0 else c.strlenIO n (address + 1) + 1

/-- The code from the end of the `PGS_IN` branch to `incoming`, for a packet of `packetlen` bytes at
`IO`. -/
def intakeMemory (packetlen : ℕ) : PgM σ Label := do
  modify fun s => { s with
    inBuf := if s.isRepl then s.comm.mem.read ⟨.cma, 1⟩ packetlen else [] }
  if packetlen < 2 then
    if (← get).isRepl then record .prompt
    pure .returnEarly
  else pure .incoming

/-- The branch for a socket file with the given contents. -/
def intakeFile (content : List UInt8) : PgM σ Label := do
  modify fun s => { s with peek := content.head? }
  if (← get).isRepl && !(← get).isWire then
    modify fun s => { s with inBuf := content, comm := { s.comm with sockfiles := false } }
  else
    modify fun s => { s with
      whereToSendOutput := .remote
      comm := { pqRecvbufFill b content content.length s.comm with sockfiles := true } }
  if (← get).peek = some 0 then
    startupAuth b
    pure .wireFlush
  else if (← get).peek = some 112 then
    startupPass b B true
    pure .wireFlush
  else pure .incoming

/-- The code from `peek = IO[0]` to `incoming`: find the packet of this call. -/
def intake : PgM σ Label := do
  modify fun s => { s with peek := some (s.comm.mem .cma 1) }
  let s ← get
  if s.comm.cmaRsize ≠ 0 then
    modify fun s => { s with
      whereToSendOutput := if s.isRepl then .debug else .remote
      comm := { s.comm with sockfiles := false } }
    intakeMemory s.comm.cmaRsize.toNat
  else
    match s.comm.pgsIn with
    | some (c :: cs) =>
      modify fun s => { s with fp := true }
      intakeFile b B (c :: cs)
    | file =>
      modify fun s => { s with fp := file.isSome }
      if s.comm.mem .cma 1 = 0 then pure .returnEarly
      else intakeMemory (s.comm.strlenIO b.cmaEnd.toNat 1)

/-- `interactive_one`. -/
def interactiveOne (fuel : ℕ) : PgM σ Unit := do
  modify fun s => { s with peek := none, pipelining := true, inBuf := [], fp := false, armed := false }
  if (← get).comm.cmaRsize < 0 then run b B fuel .resumeOnError
  else
    if !(← get).myProcPort then modify (ioInit b)
    if 0 < (← get).comm.socketData then run b B fuel .wireFlush
    else
      modify fun s => { s with comm := s.comm.openSocketFile }
      prologue b B
      let next ← intake b B
      run b B fuel next

/-! ## The other exported functions -/

/-- `interactive_write`. -/
def interactiveWrite (size : ℤ) (s : State σ) : State σ :=
  { s with comm := { s.comm with cmaRsize := size }, cmaWsize := 0 }

/-- `interactive_read`. -/
def interactiveRead (s : State σ) : ℤ := s.cmaWsize

/-- `get_channel`. -/
def getChannel (s : State σ) : ℤ := s.channel

/-- `use_wire`. -/
def useWire (state : ℤ) (s : State σ) : State σ :=
  if 0 < state then { s with isWire := true, isRepl := false }
  else { s with isWire := false, isRepl := true }

end PgliteBuild
