import PgliteBuild.Pqcomm.Basic

/-! # State and backend of `interactive_one`

`interactive_one` runs inside a PostgreSQL backend. The globals and locals that decide what it does
are the fields of `State`; the rest of the backend (the executor, transactions, notifications) is a
parameter, `Backend`: a deterministic machine over a session state `σ` that answers each dispatched
message with the bytes it puts on the connection, the messages it reads from it itself, and success
or an error. Quantifying over backends ranges over every choice of replies and errors. -/

namespace PgliteBuild

open Effect Framing

/-! ## Messages and errors -/

/-- The frontend messages that the protocol switch knows. -/
inductive FrontendMsg where
  | query | parse | bind | execute | functionCall | close | describe | flush | sync | terminate
  | copyData | copyDone | copyFail
  deriving DecidableEq, Repr

namespace FrontendMsg

/-- The type byte of a message. -/
def code : FrontendMsg → UInt8
  | query => 81 | parse => 80 | bind => 66 | execute => 69 | functionCall => 70 | close => 67
  | describe => 68 | flush => 72 | sync => 83 | terminate => 88 | copyData => 100 | copyDone => 99
  | copyFail => 102

/-- Every message that the protocol switch knows. -/
def all : List FrontendMsg :=
  [query, parse, bind, execute, functionCall, close, describe, flush, sync, terminate, copyData,
    copyDone, copyFail]

/-- The message with a given type byte. -/
def ofCode (t : UInt8) : Option FrontendMsg := all.find? fun m => m.code == t

@[simp] theorem ofCode_code (m : FrontendMsg) : ofCode m.code = some m := by
  cases m <;> decide

/-- Only the type byte of a message is decoded to it. -/
theorem code_of_ofCode {t : UInt8} {m : FrontendMsg} (h : ofCode t = some m) : m.code = t := by
  simpa using List.find?_some h

/-- The length limit of `SocketBackend` for a message: `PQ_SMALL_MESSAGE_LIMIT`, or
`PQ_LARGE_MESSAGE_LIMIT` for the messages that carry data. -/
def maxlen : FrontendMsg → ℕ
  | query | functionCall | bind | parse | copyData => 1073741822
  | terminate | close | describe | execute | flush | sync | copyDone | copyFail => 10000

/-- What `SocketBackend` stores into `doing_extended_query_message`. -/
def extended : FrontendMsg → Bool
  | bind | parse | close | describe | execute | flush => true
  | query | functionCall | terminate | sync | copyData | copyDone | copyFail => false

/-- Whether `SocketBackend` clears `ignore_till_sync`. -/
def endsSkip : FrontendMsg → Bool
  | sync | terminate => true
  | _ => false

/-- The messages that COPY FROM STDIN accepts. -/
def inCopy : FrontendMsg → Bool
  | copyData | copyDone | copyFail | flush | sync => true
  | _ => false

end FrontendMsg

/-- The SQLSTATE conditions that the modelled code raises itself. -/
inductive Errcode where
  | protocolViolation | invalidPassword | connectionFailure
  /-- Any condition raised by the rest of the backend. -/
  | other
  deriving DecidableEq, Repr

/-- An error waiting in the error stack. -/
structure ErrorReport where
  /-- `errcode`. -/
  errcode : Errcode
  /-- `errmsg`. -/
  errmsg : String
  deriving DecidableEq, Repr

/-! ## The rest of the backend -/

/-- `whereToSendOutput`. -/
inductive CommandDest where
  | none | debug | remote
  deriving DecidableEq, Repr

/-- The transaction block state that `IsTransactionOrTransactionBlock` and
`IsAbortedTransactionBlockState` tell apart. -/
inductive BlockState where
  | idle | inTransaction | aborted
  deriving DecidableEq, Repr

/-- `TransactionBlockStatusCode`. -/
def BlockState.statusCode : BlockState → UInt8
  | idle => 73 | inTransaction => 84 | aborted => 69

/-- What backend code does to the connection while it handles a message. -/
inductive Action where
  /-- Put bytes on the connection, through `internal_putbytes`. -/
  | putbytes (s : List UInt8)
  /-- `pq_flush`. -/
  | flush
  /-- Read the next message from the connection, as COPY FROM STDIN does. -/
  | copyRead
  deriving DecidableEq, Repr

/-- How the backend handles a message: what it does to the connection, the error it ends with if it
fails, whether a notification for this session became pending, and the session state after it. -/
structure Response (σ : Type) where
  actions : List Action
  error : Option ErrorReport
  notify : Bool
  next : σ

/-- The messages that a response reads. -/
def Response.reads {σ : Type} (r : Response σ) : ℕ := r.actions.count .copyRead

/-- The parts of the backend that are not in this repository, over a session state `σ`. -/
structure Backend (σ : Type) where
  /-- `exec_simple_query`, `exec_parse_message`, `HandleFunctionRequest`, `finish_xact_command` and
  the other handlers that the protocol switch calls. -/
  exec : σ → FrontendMsg → List UInt8 → Response σ
  /-- The delivery of pending notifications in `ProcessNotifyInterrupt`. -/
  processNotify : σ → Response σ
  /-- `AbortCurrentTransaction` and the other cleanup calls of `clear_error`. -/
  abortTransaction : σ → σ
  blockState : σ → BlockState
  /-- The body of the ErrorResponse for an error. -/
  errorBody : ErrorReport → List UInt8
  /-- The bodies of the ParameterStatus messages of `BeginReportingGUCOptions`. -/
  gucReport : σ → List (List UInt8)
  /-- `MyProcPid` and `MyCancelKey`, the body of BackendKeyData. -/
  backendKey : List UInt8

/-- A backend without session state: outside any transaction block, with the given answer to each
message and nothing to say of itself. -/
def Backend.stateless (answer : FrontendMsg → List UInt8 → List Action × Option ErrorReport) :
    Backend Unit where
  exec _ m body := ⟨(answer m body).1, (answer m body).2, false, ()⟩
  processNotify _ := ⟨[], none, false, ()⟩
  abortTransaction _ := ()
  blockState _ := .idle
  errorBody _ := [0]
  gucReport _ := []
  backendKey := word32 1 ++ word32 2

/-- The backend that lets every message succeed without output. -/
def Backend.silent : Backend Unit := .stateless fun _ _ => ([], none)

/-! ## History -/

/-- The operations of `interactive_one` that can raise an error. -/
inductive Raiser where
  | processNotifyInterrupt | startupAuth | startupPass | socketBackend | messageSwitch
  | readyForQuery
  deriving DecidableEq, Repr

/-- On whose behalf bytes are put on the connection. -/
inductive Source where
  | message | error | ready | notification | auth
  deriving DecidableEq, Repr

/-- What an activation did, in order. The code never reads its history. -/
inductive Event where
  /-- `sigsetjmp` was executed and `PG_exception_stack` set. -/
  | sigsetjmp
  /-- An operation that can raise an error starts. -/
  | raising (op : Raiser)
  /-- A message reaches the protocol switch. -/
  | dispatch (msg : FrontendMsg) (body : List UInt8)
  /-- Bytes are put on the connection. -/
  | put (source : Source) (bytes : List UInt8)
  /-- The label `wire_flush` is reached. -/
  | wireFlush
  /-- `PGS_OLOCK` is renamed to `PGS_OUT`. -/
  | rename
  /-- `pg_prompt`. -/
  | prompt
  deriving DecidableEq, Repr

/-- The bytes that an event puts on the connection. -/
def Event.bytes : Event → List UInt8
  | put _ bytes => bytes
  | sigsetjmp | raising _ | dispatch _ _ | wireFlush | rename | prompt => []

/-! ## State -/

/-- The state of the backend as far as `interactive_one` reads and writes it. -/
structure State (σ : Type) where
  comm : Comm
  /-- The session state of the rest of the backend. -/
  db : σ
  cmaWsize : ℤ
  channel : ℤ
  canaryEx : ℕ
  isWire : Bool
  isRepl : Bool
  whereToSendOutput : CommandDest
  sendReadyForQuery : Bool
  ignoreTillSync : Bool
  doingExtendedQueryMessage : Bool
  clientAuthInProgress : Bool
  notifyInterruptPending : Bool
  /-- Whether `MyProcPort` is set. -/
  myProcPort : Bool
  sfConnected : ℕ
  /-- The top of the error stack. -/
  errordata : Option ErrorReport
  /-- Local `peek`; `none` is -1. -/
  peek : Option UInt8
  /-- Local `pipelining`. -/
  pipelining : Bool
  /-- The contents of `inBuf`. -/
  inBuf : List UInt8
  /-- Whether the local `fp` is open. -/
  fp : Bool
  /-- Whether `PG_exception_stack` was set by the current activation. -/
  armed : Bool
  trace : List Event

/-- The state before the first call. -/
def State.boot {σ : Type} (db : σ) : State σ where
  comm := Comm.boot
  db := db
  cmaWsize := 0
  channel := 0
  canaryEx := 0
  isWire := true
  isRepl := true
  whereToSendOutput := .debug
  sendReadyForQuery := true
  ignoreTillSync := false
  doingExtendedQueryMessage := false
  clientAuthInProgress := false
  notifyInterruptPending := false
  myProcPort := false
  sfConnected := 0
  errordata := none
  peek := none
  pipelining := true
  inBuf := []
  fp := false
  armed := false
  trace := []

/-- Computations of the backend. -/
abbrev PgM (σ : Type) (α : Type) := EStateM Stop (State σ) α

variable {σ α : Type}

/-- Run a computation over the connection. -/
def liftComm (m : CommM α) : PgM σ α := fun s =>
  match m s.comm with
  | .ok a c => .ok a { s with comm := c }
  | .error e c => .error e { s with comm := c }

/-- Run a reader of `pqcomm.c`. -/
def liftRecv (f : Comm → α × Comm) : PgM σ α := fun s => .ok (f s.comm).1 { s with comm := (f s.comm).2 }

/-- Append to the history. -/
def record (e : Event) : PgM σ Unit := modify fun s => { s with trace := s.trace ++ [e] }

/-- The condition of a computation on the connection is that of the connection, with the rest of the state as it
was. -/
theorem wp_liftComm (m : CommM α) (post : α → State σ → Prop) (exn : Stop → State σ → Prop)
    (s : State σ) :
    wp (liftComm m) post exn s ↔
      wp m (fun a c => post a { s with comm := c }) (fun e c => exn e { s with comm := c }) s.comm := by
  unfold wp liftComm
  cases m s.comm <;> rfl

@[simp] theorem wp_liftRecv (f : Comm → α × Comm) (post : α → State σ → Prop)
    (exn : Stop → State σ → Prop) (s : State σ) :
    wp (liftRecv f) post exn s ↔ post (f s.comm).1 { s with comm := (f s.comm).2 } := Iff.rfl

@[simp] theorem wp_record (e : Event) (post : Unit → State σ → Prop) (exn : Stop → State σ → Prop)
    (s : State σ) :
    wp (record e) post exn s ↔ post () { s with trace := s.trace ++ [e] } := Iff.rfl

end PgliteBuild
