import PgliteBuild.InteractiveOne.Events
import PgliteBuild.InteractiveOne.Machine

/-! # Wire and repl

The functions that act on the connection, the history and the reported error leave every other variable alone
(`SeesControl`), and the code of a call but for the end of a session assigns only variables that are neither
the modes nor the error count (`SeesModes`). What both add to the history is of the kind `P` if what the backend
puts is (`Backend.Puts`).

So the code of a call switches neither to wire nor to repl, and it leaves the error count of the call to the
handler (`SameModes`). The end of a session leaves the repl, but only wire code reads one; so in every configuration
of a run one of the two modes is set (`has_mode`), although the globals start with both. -/

namespace PgliteBuild

open Effect Framing Runs

variable {σ α : Type} {b : Build} {B : Backend σ} {P : Event → Prop} {R : State σ → State σ → Prop}

/-! ## What is put -/

/-- Every event that the backend and the code around it add to the history is of the kind `P`. -/
structure Backend.Puts (B : Backend σ) (P : Event → Prop) : Prop where
  /-- Events that put nothing. -/
  quiet : ∀ e : Event, e.bytes = [] → P e
  exec : ∀ d m body bytes, Action.putbytes bytes ∈ (B.exec d m body).actions → P (.put .message bytes)
  notify : ∀ d bytes, Action.putbytes bytes ∈ (B.processNotify d).actions → P (.put .notification bytes)
  error : ∀ e, P (.put .error (69 :: encodeBody (B.errorBody e)))
  ready : ∀ d, P (.put .ready (90 :: encodeBody [(B.blockState d).statusCode]))
  /-- CloseComplete. -/
  close : P (.put .message (51 :: encodeBody []))
  /-- AuthenticationMD5Password. -/
  challenge : P (.put .auth (82 :: encodeBody (word32 5 ++ [0x01, 0x23, 0x45, 0x56])))
  /-- AuthenticationOk. -/
  accept : P (.put .auth (82 :: encodeBody (word32 0)))
  guc : ∀ d, ∀ body ∈ B.gucReport d, P (.put .auth (83 :: encodeBody body))
  key : P (.put .auth (75 :: encodeBody B.backendKey))

/-- Everything is of the kind of all events. -/
theorem puts_any (B : Backend σ) : B.Puts fun _ => True := by constructor <;> intros <;> trivial

/-! ## Code that leaves the control variables alone -/

/-- `R` relates states that differ in the connection, in the error that is reported, or by events of the kind `P`. -/
structure SeesControl (P : Event → Prop) (R : State σ → State σ → Prop) : Prop where
  ofComm : ∀ s c, R s { s with comm := c }
  ofTrace : ∀ s e, P e → R s { s with trace := s.trace ++ [e] }
  ofError : ∀ s e, R s { s with errordata := e }

namespace SeesControl

variable (hR : SeesControl P R)

include hR

/-- An event of the kind `P` may be recorded. -/
theorem record {e : Event} (he : P e) : Performs R (record e : PgM σ Unit) :=
  performs_modify fun s => hR.ofTrace s e he

/-- Raising an error sets the reported error only. -/
theorem ereport (errcode : Errcode) (errmsg : String) : Performs R (ereport errcode errmsg : PgM σ α) :=
  performs_bind (performs_modify fun s => hR.ofError s _) fun _ => performs_throw _

/-- A computation on the connection that may fail moves the connection only. -/
theorem liftComm (m : CommM α) : Performs R (liftComm m : PgM σ α) := by
  intro s
  rw [wp_liftComm]
  exact wp_mono (wp_true m s.comm) (fun _ c _ => .single (hR.ofComm s c)) fun _ c _ => .single (hR.ofComm s c)

/-- A computation on the connection that returns moves the connection only. -/
theorem liftRecv (f : Comm → α × Comm) : Performs R (liftRecv f : PgM σ α) := fun s => .single (hR.ofComm s _)

/-- `pq_putmessage` moves the connection and records the bytes of one message. -/
theorem putmessage {source : Source} {msgtype : UInt8} {body : List UInt8}
    (hput : P (.put source (msgtype :: encodeBody body))) :
    Performs R (putmessage source msgtype body : PgM σ Unit) :=
  performs_bind (hR.liftComm _) fun _ => hR.record hput

/-- A row of messages moves the connection and records the bytes of each. -/
theorem putmessages {source : Source} {msgtype : UInt8} {bodies : List (List UInt8)}
    (hput : ∀ body ∈ bodies, P (.put source (msgtype :: encodeBody body))) :
    Performs R (putmessages source msgtype bodies : PgM σ Unit) := by
  induction bodies with
  | nil => exact performs_pure _
  | cons body bodies ih =>
      obtain ⟨hfirst, hrest⟩ := List.forall_mem_cons.mp hput
      exact performs_bind (hR.putmessage hfirst) fun _ => ih hrest

/-- The reading of a COPY message moves the connection and raises errors. -/
theorem copyRead : Performs R (copyRead b : PgM σ Unit) := by
  refine performs_bind (hR.liftComm _) fun _ => performs_bind (hR.liftRecv _) fun x => ?_
  cases x with
  | none => exact hR.ereport _ _
  | some t =>
      dsimp only
      cases (FrontendMsg.ofCode t).filter FrontendMsg.inCopy with
      | none => exact hR.ereport _ _
      | some m =>
          refine performs_bind (hR.liftRecv _) fun body => ?_
          cases body with
          | none => exact hR.ereport _ _
          | some body => exact performs_pure _

/-- The actions of a handler put what they say and read COPY messages. -/
theorem runActions {source : Source} {as : List Action}
    (hputs : ∀ bytes, Action.putbytes bytes ∈ as → P (.put source bytes)) :
    Performs R (runActions b source as : PgM σ Unit) := by
  induction as with
  | nil => exact performs_pure _
  | cons a as ih =>
      have hrest := ih fun bytes hbytes => hputs bytes (List.mem_cons_of_mem a hbytes)
      refine performs_bind ?_ fun _ => hrest
      cases a with
      | putbytes bytes =>
          have hput : P (.put source bytes) := hputs bytes List.mem_cons_self
          exact performs_bind (hR.liftComm _) fun _ => hR.record hput
      | flush => exact hR.liftComm internalFlush
      | copyRead => exact hR.copyRead

/-- A response of the backend puts what its actions say, and takes the database and the pending notification on.
-/
theorem respond {source : Source} {r : Response σ}
    (hputs : ∀ bytes, Action.putbytes bytes ∈ r.actions → P (.put source bytes))
    (hset : ∀ s : State σ, R s { s with
      db := r.next, notifyInterruptPending := s.notifyInterruptPending || r.notify }) :
    Performs R (respond b source r) := by
  apply performs_respond_settle
  · exact hR.runActions hputs
  · exact performs_settle hset fun e => hR.ereport e.errcode e.errmsg

/-- `ReadyForQuery` puts one message and flushes. -/
theorem readyForQuery (hB : B.Puts P) (dest : CommandDest) : Performs R (readyForQuery B dest) := by
  refine performs_bind (hR.record (hB.quiet _ rfl)) fun _ => performs_ite ?_ (performs_pure _)
  refine performs_bind performs_get fun s => ?_
  exact performs_bind (hR.putmessage (hB.ready s.db)) fun _ => hR.liftComm internalFlush

/-- `EmitErrorReport` puts one message, for a remote client only. -/
theorem emitErrorReport (hB : B.Puts P) : Performs R (emitErrorReport B) := by
  have hclear : Performs R (modify fun s => { s with errordata := none } : PgM σ Unit) :=
    performs_modify fun s => hR.ofError s none
  refine performs_bind performs_get fun s => ?_
  cases s.errordata with
  | none => exact performs_pure _
  | some e =>
      refine performs_bind performs_get fun s => ?_
      dsimp only
      split
      · exact performs_bind (hR.putmessage (hB.error e)) fun _ =>
          performs_bind (hR.liftComm internalFlush) fun _ => hclear
      · exact hclear

/-- `discard_input` moves the connection only. -/
theorem discardInput : Performs R (discardInput b : PgM σ Unit) := by
  have hbytes : ∀ n, Performs R (discardBytes b n : PgM σ Unit) := by
    intro n
    induction n with
    | zero => exact performs_pure _
    | succ n ih => exact performs_bind (hR.liftRecv _) fun _ => ih
  refine performs_bind performs_get fun s => performs_ite (performs_pure _) ?_
  refine performs_bind (hR.liftComm _) fun _ => performs_bind performs_get fun s => ?_
  exact performs_bind (hbytes _) fun _ => hR.liftComm pqEndmsgread

/-- `recv_password_packet` moves the connection and raises errors. -/
theorem recvPasswordPacket : Performs R (recvPasswordPacket b : PgM σ (Option (List UInt8))) := by
  refine performs_bind (hR.liftComm _) fun _ => performs_bind (hR.liftRecv _) fun x => ?_
  cases x with
  | none => exact performs_pure _
  | some t =>
      refine performs_ite (hR.ereport _ _) (performs_bind (hR.liftRecv _) fun body => ?_)
      cases body with
      | none => exact performs_pure _
      | some body => exact performs_ite (hR.ereport _ _) (performs_ite (hR.ereport _ _) (performs_pure _))

end SeesControl

/-! ## Code that leaves the modes alone -/

/-- `s'` has the modes, the error count and the history of `s`. -/
structure SameVars (s s' : State σ) : Prop where
  wire : s'.isWire = s.isWire
  repl : s'.isRepl = s.isRepl
  canary : s'.canaryEx = s.canaryEx
  trace : s'.trace = s.trace

/-- `R` relates states that differ in other variables than the modes and the error count, or by events of the
kind `P`. -/
structure SeesModes (P : Event → Prop) (R : State σ → State σ → Prop) : Prop extends SeesControl P R where
  ofVars : ∀ s s', SameVars s s' → R s s'

namespace SeesModes

variable (hR : SeesModes P R)

include hR

/-- An assignment to other variables is among the steps. -/
theorem assign {f : State σ → State σ} (hf : ∀ s, SameVars s (f s)) : Performs R (modify f : PgM σ Unit) :=
  performs_modify fun s => hR.ofVars s (f s) (hf s)

/-- The execution of a message takes the database on and puts what the backend says. -/
theorem exec (hB : B.Puts P) (d : σ) (m : FrontendMsg) (body : List UInt8) :
    Performs R (respond b .message (B.exec d m body)) :=
  hR.respond (hB.exec d m body) fun s => hR.ofVars s _ (by constructor <;> rfl)

/-- `ProcessNotifyInterrupt` takes the database on and puts what the backend says. -/
theorem processNotifyInterrupt (hB : B.Puts P) : Performs R (processNotifyInterrupt b B) := by
  refine performs_bind (hR.record (hB.quiet _ rfl)) fun _ => performs_bind performs_get fun s => ?_
  refine performs_ite ?_ (performs_pure _)
  refine performs_bind (hR.assign fun _ => by constructor <;> rfl) fun _ => performs_bind performs_get fun s => ?_
  apply hR.respond
  · exact hB.notify s.db
  · exact fun s => hR.ofVars s _ (by constructor <;> rfl)

/-- `clear_error` puts the error and assigns variables that are neither the modes nor the error count. -/
theorem clearError (hB : B.Puts P) : Performs R (clearError B) := by
  apply performs_clearError
  · exact hR.emitErrorReport hB
  · exact fun s => hR.ofVars s _ (by constructor <;> rfl)
  · exact fun s => hR.ofVars s _ (by constructor <;> rfl)
  · exact fun s => hR.ofVars s _ (by constructor <;> rfl)

protected theorem startupAuth (hB : B.Puts P) : Performs R (startupAuth b : PgM σ Unit) := by
  refine performs_bind (hR.record (hB.quiet _ rfl)) fun _ => ?_
  refine performs_bind (hR.assign fun _ => by constructor <;> rfl) fun _ => ?_
  refine performs_bind (hR.assign fun _ => by constructor <;> rfl) fun _ => ?_
  refine performs_bind hR.discardInput fun _ => ?_
  refine performs_bind (hR.assign fun _ => by constructor <;> rfl) fun _ => ?_
  exact performs_bind (hR.putmessage hB.challenge) fun _ => hR.liftComm internalFlush

protected theorem startupPass (hB : B.Puts P) (check : Bool) : Performs R (startupPass b B check) := by
  have hrest : Performs R (do
      modify fun s => { s with clientAuthInProgress := false }
      putmessage .auth 82 (word32 0)
      putmessages .auth 83 (B.gucReport (← get).db)
      putmessage .auth 75 B.backendKey
      modify fun s => { s with sendReadyForQuery := true, ignoreTillSync := false } : PgM σ Unit) := by
    refine performs_bind (hR.assign fun _ => by constructor <;> rfl) fun _ => ?_
    refine performs_bind (hR.putmessage hB.accept) fun _ => performs_bind performs_get fun s => ?_
    refine performs_bind (hR.putmessages (hB.guc s.db)) fun _ => performs_bind (hR.putmessage hB.key) fun _ => ?_
    exact hR.assign fun _ => by constructor <;> rfl
  refine performs_bind (hR.record (hB.quiet _ rfl)) fun _ => ?_
  dsimp only
  split
  · refine performs_bind hR.recvPasswordPacket fun passwd => ?_
    cases passwd with
    | none => exact performs_bind (performs_throw _) fun _ => hrest
    | some body => exact hrest
  · exact performs_bind hR.discardInput fun _ => hrest

/-- `SocketBackend` reads a message and sets the flag of extended queries. -/
theorem socketBackend (hB : B.Puts P) : Performs R (socketBackend b B) := by
  refine performs_bind (hR.record (hB.quiet _ rfl)) fun _ => performs_bind (hR.liftComm _) fun _ => ?_
  refine performs_bind (hR.liftRecv _) fun x => ?_
  cases x with
  | none =>
      refine performs_bind performs_get fun s => ?_
      dsimp only
      split
      · exact performs_bind (hR.assign fun _ => by constructor <;> rfl) fun _ => performs_pure _
      · exact performs_pure _
  | some t =>
      dsimp only
      cases FrontendMsg.ofCode t with
      | none => exact performs_throw _
      | some m =>
          -- the flags of the message, then its body into `input_message`
          refine performs_bind (hR.assign fun _ => by constructor <;> rfl) fun _ => ?_
          refine performs_bind (hR.liftRecv _) fun body => ?_
          cases body with
          | none => exact performs_pure _
          | some body => exact performs_bind (hR.assign fun _ => by constructor <;> rfl) fun _ => performs_pure _

/-- Reading the next message of the loop leaves the modes alone. -/
theorem nextMessage (hB : B.Puts P) : Performs R (nextMessage b B) := by
  refine performs_bind performs_get fun s => performs_ite ?_ ?_
  · exact performs_bind (hR.socketBackend hB) fun _ =>
      performs_bind (hR.assign fun _ => by constructor <;> rfl) fun _ => performs_pure _
  · exact performs_bind (hR.assign fun _ => by constructor <;> rfl) fun _ => performs_pure _

/-- Only the end of the session touches a mode. -/
theorem protoSwitch (hB : B.Puts P) {m : FrontendMsg} (hm : m ≠ .terminate) :
    Performs R (protoSwitch b B (some m)) := by
  have hdefer : Performs R (do
      deferReadyForQuery
      pure false : PgM σ Bool) :=
    performs_bind (hR.assign fun _ => by constructor <;> rfl) fun _ => performs_pure _
  refine performs_bind (hR.record (hB.quiet _ rfl)) fun _ => performs_bind performs_get fun s => ?_
  refine performs_bind (hR.record (hB.quiet _ rfl)) fun _ => ?_
  -- what the backend does with a message, and what the switch assigns behind it
  cases m with
  | query | functionCall | sync | parse =>
      exact performs_bind (hR.exec hB _ _ _) fun _ =>
        performs_bind (hR.assign fun _ => by constructor <;> rfl) fun _ => performs_pure _
  | bind | execute | describe => exact performs_bind (hR.exec hB _ _ _) fun _ => hdefer
  | close =>
      refine performs_bind (hR.exec hB _ _ _) fun _ => performs_bind performs_get fun s => ?_
      dsimp only
      split
      · exact performs_bind (hR.putmessage hB.close) fun _ => hdefer
      · exact hdefer
  | flush =>
      apply performs_ite (hR.ereport _ _)
      dsimp only
      split
      · exact performs_bind (hR.liftComm internalFlush) fun _ => performs_pure _
      · exact performs_pure _
  | terminate => exact absurd rfl hm
  | copyData | copyDone | copyFail => exact performs_pure _

/-- The end of a round leaves the modes alone. -/
theorem betweenMessages (hB : B.Puts P) : Performs R (betweenMessages B) := by
  refine performs_bind performs_get fun s => performs_ite ?_ (performs_pure _)
  refine performs_bind (hR.assign fun _ => by constructor <;> rfl) fun _ => ?_
  refine performs_bind performs_get fun s => performs_bind performs_get fun s' => performs_ite ?_ (performs_pure _)
  refine performs_bind performs_get fun s => performs_bind (hR.readyForQuery hB _) fun _ => ?_
  exact hR.assign fun _ => by constructor <;> rfl

/-- The end of a reply leaves the modes alone. -/
theorem finishReply (hB : B.Puts P) : Performs R (finishReply b B) := by
  have hlast : Performs R (lastReadyForQuery B) := by
    refine performs_bind performs_get fun s => performs_ite ?_ (performs_pure _)
    refine performs_bind (hR.readyForQuery hB _) fun _ => ?_
    exact hR.assign fun _ => by constructor <;> rfl
  refine performs_bind performs_get fun s => performs_ite ?_ (performs_pure _)
  refine performs_bind performs_get fun s => ?_
  dsimp only
  split
  · exact performs_bind (hR.processNotifyInterrupt hB) fun _ => hlast
  · exact hlast

/-- Handing the reply over moves the connection and records a rename. -/
theorem handOver (hrename : P .rename) : Performs R (handOver : PgM σ Unit) := by
  have hclose : ∀ publish, Performs R (closeSocketFile publish : PgM σ Unit) := by
    intro publish
    refine performs_bind performs_get fun s => ?_
    cases s.comm.socketFile with
    | none => exact performs_throw _
    | some content =>
        refine performs_bind (hR.assign fun _ => by constructor <;> rfl) fun _ => ?_
        refine performs_ite ?_ (performs_pure _)
        exact performs_bind (hR.assign fun _ => by constructor <;> rfl) fun _ => hR.record hrename
  have hlast : Performs R (modify fun s => { s with comm := { s.comm with socketData := 0 } } : PgM σ Unit) :=
    hR.assign fun _ => by constructor <;> rfl
  have hrest : Performs R (do
      if (← get).comm.socketFile.isSome then closeSocketFile (← get).comm.sockfiles
      modify fun s => { s with comm := { s.comm with socketData := 0 } } : PgM σ Unit) := by
    refine performs_bind performs_get fun s => ?_
    split
    · exact performs_bind performs_get fun s => performs_bind (hclose _) fun _ => hlast
    · exact hlast
  refine performs_bind performs_get fun s => ?_
  split
  · refine performs_bind performs_get fun s => ?_
    split
    · exact performs_bind (hR.assign fun _ => by constructor <;> rfl) fun _ => hrest
    · exact performs_bind (hR.assign fun _ => by constructor <;> rfl) fun _ => hrest
  · refine performs_bind (hR.assign fun _ => by constructor <;> rfl) fun _ => ?_
    exact performs_bind performs_get fun s => performs_ite (hclose true) (performs_pure _)

/-- `wire_flush` leaves the modes alone. -/
theorem wireFlush (hB : B.Puts P) : Performs R (wireFlush b B) :=
  performs_bind (hR.record (hB.quiet _ rfl)) fun _ =>
    performs_bind (hR.finishReply hB) fun _ => hR.handOver (hB.quiet _ rfl)

protected theorem prologue (hB : B.Puts P) : Performs R (prologue b B) := by
  have hrest : Performs R (modify fun s => { s with sendReadyForQuery := false } : PgM σ Unit) :=
    hR.assign fun _ => by constructor <;> rfl
  refine performs_bind performs_get fun s => performs_ite ?_ (performs_pure _)
  refine performs_bind performs_get fun s => performs_bind performs_get fun s' => ?_
  dsimp only
  split
  · exact performs_bind (hR.processNotifyInterrupt hB) fun _ => hrest
  · exact hrest

protected theorem intake (hB : B.Puts P) : Performs R (intake b B) := by
  have hmemory : ∀ n, Performs R (intakeMemory n : PgM σ Label) := by
    intro n
    refine performs_bind (hR.assign fun _ => by constructor <;> rfl) fun _ => performs_ite ?_ (performs_pure _)
    refine performs_bind performs_get fun s => ?_
    dsimp only
    split
    · exact performs_bind (hR.record (hB.quiet _ rfl)) fun _ => performs_pure _
    · exact performs_pure _
  have hpacket : Performs R (do
      if (← get).peek = some 0 then
        startupAuth b
        pure .wireFlush
      else if (← get).peek = some 112 then
        startupPass b B true
        pure .wireFlush
      else pure .incoming : PgM σ Label) := by
    refine performs_bind performs_get fun s => performs_ite ?_ ?_
    · exact performs_bind (hR.startupAuth hB) fun _ => performs_pure _
    · refine performs_bind performs_get fun s => performs_ite ?_ (performs_pure _)
      exact performs_bind (hR.startupPass hB true) fun _ => performs_pure _
  have hfile : ∀ content, Performs R (intakeFile b B content) := by
    intro content
    refine performs_bind (hR.assign fun _ => by constructor <;> rfl) fun _ => ?_
    refine performs_bind performs_get fun s => performs_bind performs_get fun s' => ?_
    dsimp only
    split
    · exact performs_bind (hR.assign fun _ => by constructor <;> rfl) fun _ => hpacket
    · exact performs_bind (hR.assign fun _ => by constructor <;> rfl) fun _ => hpacket
  refine performs_bind (hR.assign fun _ => by constructor <;> rfl) fun _ => ?_
  refine performs_bind performs_get fun s => performs_ite ?_ ?_
  · exact performs_bind (hR.assign fun _ => by constructor <;> rfl) fun _ => hmemory _
  · split
    · exact performs_bind (hR.assign fun _ => by constructor <;> rfl) fun _ => hfile _
    · refine performs_bind (hR.assign fun _ => by constructor <;> rfl) fun _ => ?_
      exact performs_ite (performs_pure _) (hmemory _)

/-- The way to the labels of a call leaves the modes alone. -/
theorem entry (hB : B.Puts P) : Performs R (entry b B) := by
  have hread : Performs R (do
      prologue b B
      intake b B : PgM σ Label) :=
    performs_bind (hR.prologue hB) fun _ => hR.intake hB
  have hconnected : ∀ s : State σ, SameVars s (s.connected b) := by
    intro s
    unfold State.connected
    split_ifs <;> constructor <;> rfl
  refine performs_bind (hR.assign fun _ => by constructor <;> rfl) fun _ => ?_
  refine performs_bind performs_get fun s => performs_ite (performs_pure _) ?_
  refine performs_bind (hR.assign hconnected) fun _ => ?_
  refine performs_bind performs_get fun s => performs_ite (performs_pure _) ?_
  exact performs_bind (hR.assign fun _ => by constructor <;> rfl) fun _ => hread

end SeesModes

/-! ## The modes -/

/-- `s'` has the modes and the error count of `s`, but in wire mode it may have left the repl. -/
structure SameModes (s s' : State σ) : Prop where
  wire : s'.isWire = s.isWire
  repl : s.isWire = false → s'.isRepl = s.isRepl
  canary : s'.canaryEx = s.canaryEx

/-- Every state has its own modes and error count. -/
theorem SameModes.refl (s : State σ) : SameModes s s := ⟨rfl, fun _ => rfl, rfl⟩

/-- The modes and the error count stay over two steps if they stay over each. -/
theorem SameModes.trans {s s' s'' : State σ} (h : SameModes s s') (h' : SameModes s' s'') : SameModes s s'' where
  wire := h'.wire.trans h.wire
  repl hwire := (h'.repl (h.wire.trans hwire)).trans (h.repl hwire)
  canary := h'.canary.trans h.canary

/-- Variables that are neither the modes nor the error count. -/
theorem SameModes.of_eq {s s' : State σ} (hwire : s'.isWire = s.isWire) (hrepl : s'.isRepl = s.isRepl)
    (hcanary : s'.canaryEx = s.canaryEx) : SameModes s s' := ⟨hwire, fun _ => hrepl, hcanary⟩

/-- A computation that keeps the modes and the error count. -/
abbrev KeepsModes (m : PgM σ α) : Prop := Performs SameModes m

/-- The modes and the error count stay on both ways out of a computation. -/
theorem KeepsModes.spec {m : PgM σ α} (h : KeepsModes m) (s : State σ) :
    wp m (fun _ => SameModes s) (fun _ => SameModes s) s :=
  h.keeps (fun _ _ hs hstep => hs.trans hstep) (.refl s)

/-- `SameModes` allows every step of code that leaves the modes alone. -/
theorem sees_modes : SeesModes (fun _ => True) (@SameModes σ) where
  ofComm _ _ := .of_eq rfl rfl rfl
  ofTrace _ _ _ := .of_eq rfl rfl rfl
  ofError _ _ := .of_eq rfl rfl rfl
  ofVars _ _ h := .of_eq h.wire h.repl h.canary

variable (B)

/-- `clear_error` keeps the modes and the error count. -/
theorem keepsModes_clearError : KeepsModes (clearError B) := sees_modes.clearError (puts_any B)

/-- In wire mode the end of the session leaves the repl only. -/
theorem protoSwitch_modes (firstchar : Option FrontendMsg) {s : State σ} (hwire : s.isWire = true) :
    wp (protoSwitch b B firstchar) (fun _ => SameModes s) (fun _ => SameModes s) s := by
  have hclose : ∀ s' : State σ, SameModes s s' →
      wp (do
        closeConnection
        pure true : PgM σ Bool) (fun _ => SameModes s) (fun _ => SameModes s) s' := by
    intro s' h
    rw [closeConnection, wp_bind, wp_modify, wp_pure]
    exact ⟨h.wire, fun hfalse => absurd (hwire.symm.trans hfalse) (by decide), h.canary⟩
  cases firstchar with
  | none =>
      rw [protoSwitch, wp_bind, wp_record, wp_bind, wp_get]
      exact hclose _ (.of_eq rfl rfl rfl)
  | some m =>
      by_cases hm : m = .terminate
      · subst hm
        rw [protoSwitch, wp_bind, wp_record, wp_bind, wp_get, wp_bind, wp_record]
        exact hclose _ (.of_eq rfl rfl rfl)
      · exact KeepsModes.spec (sees_modes.protoSwitch (puts_any B) hm) s

/-! ## The code at the labels -/

/-- A mode is set. -/
def State.HasMode (s : State σ) : Prop := s.isWire = true ∨ s.isRepl = true

/-- A mode that is set stays set. -/
theorem SameModes.hasMode {s s' : State σ} (h : SameModes s s') (hmode : s.HasMode) : s'.HasMode := by
  rcases Bool.eq_false_or_eq_true s.isWire with hwire | hwire
  · exact .inl (h.wire.trans hwire)
  · exact .inr ((h.repl hwire).trans (hmode.resolve_left (by simp [hwire])))

/-- Acting on a message keeps the modes; the repl reads no end of session. -/
theorem actOn_modes {firstchar : Option FrontendMsg} {s : State σ}
    (h : s.isWire = true ∨ firstchar = some .query) :
    wp (actOn b B firstchar) (fun _ => SameModes s) (fun _ => SameModes s) s := by
  have hswitch : wp (protoSwitch b B firstchar) (fun _ => SameModes s) (fun _ => SameModes s) s := by
    rcases h with hwire | rfl
    · exact protoSwitch_modes B firstchar hwire
    · exact KeepsModes.spec (sees_modes.protoSwitch (puts_any B) (by decide)) s
  rw [actOn, wp_bind, wp_get]
  split_ifs
  · exact .refl s
  rw [wp_bind]
  refine wp_mono hswitch ?_ fun _ _ h' => h'
  intro shortcut s' h'
  have hend : KeepsModes (if shortcut then pure .wireFlush else do
      betweenMessages B
      pure .loop : PgM σ Label) :=
    performs_ite (performs_pure _) (performs_bind (sees_modes.betweenMessages (puts_any B)) fun _ => performs_pure _)
  exact wp_mono (hend.spec s') (fun _ _ => h'.trans) fun _ _ => h'.trans

/-- One round of the loop keeps the modes and the error count. -/
theorem loopRound_modes (s : State σ) :
    wp (loopRound b B) (fun _ => SameModes s) (fun _ => SameModes s) s := by
  have hround : SameModes s s.round := by
    unfold State.round
    split_ifs <;> exact .of_eq rfl rfl rfl
  apply (wp_of_eq (loopRound_eq b B s)).mpr
  have hrest : wp (if s.isWire && s.peek = some 0 then do
        startupAuth b
        pure .resumeOnError
      else if s.isWire && s.peek = some 112 then do
        startupPass b B true
        pure .resumeOnError
      else do
        let firstchar ← nextMessage b B
        actOn b B firstchar : PgM σ Label) (fun _ => SameModes s.round) (fun _ => SameModes s.round) s.round := by
    split_ifs
    · exact KeepsModes.spec (performs_bind (sees_modes.startupAuth (puts_any B)) fun _ => performs_pure _) _
    · exact KeepsModes.spec (performs_bind (sees_modes.startupPass (puts_any B) true) fun _ => performs_pure _) _
    · -- wire mode may read the end of the session, which leaves the repl; the repl reads a Query
      rcases Bool.eq_false_or_eq_true s.round.isWire with hwire | hwire
      · rw [wp_bind]
        refine wp_mono (KeepsModes.spec (sees_modes.nextMessage (puts_any B)) _) ?_ fun _ _ h => h
        intro firstchar s₁ h₁
        exact wp_mono (actOn_modes B (.inl (h₁.wire.trans hwire))) (fun _ _ => h₁.trans) fun _ _ => h₁.trans
      · rw [wp_bind, nextMessage, wp_bind, wp_get, if_neg (by simp [hwire]), wp_bind, wp_modify, wp_pure]
        have hsame : SameModes s.round { s.round with inBuf := s.round.inBuf ++ [0] } := SameModes.of_eq rfl rfl rfl
        exact wp_mono (actOn_modes B (.inr rfl)) (fun _ _ => hsame.trans) fun _ _ => hsame.trans
  exact wp_mono hrest (fun _ _ => hround.trans) fun _ _ => hround.trans

/-- The code at a label before `return_early` keeps the modes and the error count. -/
theorem block_modes {l : Label} (s : State σ) (hl : l ≠ .returnEarly) :
    wp (block b B l) (fun _ => SameModes s) (fun _ => SameModes s) s := by
  cases l with
  | returnEarly => exact absurd rfl hl
  | incoming =>
      rw [block]
      split_ifs
      · exact .of_eq rfl rfl rfl
      · exact .refl s
  | loop =>
      rw [block, wp_bind, wp_get]
      split_ifs
      · rw [wp_bind]
        exact loopRound_modes B s
      · exact .refl s
  | resumeOnError =>
      rw [block, wp_bind, wp_get]
      split_ifs
      · exact .of_eq rfl rfl rfl
      · exact .refl s
  | wireFlush =>
      exact KeepsModes.spec (performs_bind (sees_modes.wireFlush (puts_any B)) fun _ => performs_pure _) s

/-! ## Runs -/

/-- The handler counts an error, and it keeps the modes. -/
theorem handler_hasMode {s : State σ} (hmode : s.HasMode) :
    wp (handler b B) (fun _ => State.HasMode) (fun _ => State.HasMode) s := by
  rw [handler, wp_bind, wp_modify, wp_bind]
  refine wp_mono ((keepsModes_clearError B).spec _) ?_ fun _ _ h => h.hasMode hmode
  intro _ s₁ h₁
  have hmode₁ : s₁.HasMode := h₁.hasMode hmode
  rw [wp_bind, wp_get]
  split_ifs
  · rw [wp_bind, wp_get]
    split_ifs
    · exact hmode₁
    · exact hmode₁
  · exact hmode₁

/-- From one label to the next a mode stays set. -/
theorem step_hasMode {s : State σ} (l : Label) (hmode : s.HasMode) :
    wp (step b B l) (fun _ => State.HasMode) (fun _ => State.HasMode) s := by
  have hblock : wp (block b B l) (fun _ => State.HasMode) (fun _ => State.HasMode) s := by
    by_cases hl : l = .returnEarly
    · subst hl
      exact hmode
    · exact wp_mono (block_modes B s hl) (fun _ _ h => h.hasMode hmode) fun _ _ h => h.hasMode hmode
  unfold wp at hblock ⊢
  rw [step]
  cases hrun : block b B l s with
  | ok next s' => simpa [hrun] using hblock
  | error e s' =>
      have hmode' : s'.HasMode := by simpa [hrun] using hblock
      cases e with
      | error =>
          dsimp only
          split_ifs
          · have hhandled := handler_hasMode (b := b) B hmode'
            unfold wp at hhandled
            cases hhandler : handler b B s' with
            | ok next s'' => simpa [hhandler] using hhandled
            | error e s'' => simpa [hhandler] using hhandled
          · exact hmode'
      | fatal _ | abort | trap | outOfFuel => exact hmode'

/-- Code that goes on keeps the mode. -/
theorem continued_hasMode {s : State σ} (l : Label) (hmode : s.HasMode) : (continued b B l s).state.HasMode := by
  apply continued_spec (P := fun c => c.state.HasMode)
  refine wp_mono (step_hasMode B l hmode) (fun next s' h => ?_) fun e s' h => ?_
  · cases next with
    | none => exact h
    | some l' => exact h
  · split_ifs
    · exact h
    · exact h

/-- A call is entered in the mode the host has set. -/
theorem entered_hasMode {s : State σ} (hmode : s.HasMode) : (entered b B s).state.HasMode := by
  apply entered_spec (P := fun c => c.state.HasMode)
  refine wp_mono (KeepsModes.spec (sees_modes.entry (puts_any B)) s) (fun _ _ h => h.hasMode hmode) fun e _ h => ?_
  split_ifs
  · exact h.hasMode hmode
  · exact h.hasMode hmode

/-- **In every configuration of a run wire or repl is set.** -/
theorem has_mode {db : σ} {is : List HostStep} {c : Config σ}
    (hrun : Reaches (Machine b B) (.idle (State.boot db)) is c) : c.state.HasMode := by
  have hboot : (State.boot db).HasMode := .inl rfl
  refine hrun.inv_of_step (I := fun _ c => c.state.HasMode) hboot ?_
  rintro _ i c c' hmode hstep
  cases hstep with
  | useWire state =>
      show (useWire state _).HasMode
      unfold useWire
      split_ifs
      · exact .inl rfl
      · exact .inr rfl
  | request t packet =>
      apply entered_hasMode
      cases t with
      | cma => exact hmode
      | file => exact hmode
  | resume => exact entered_hasMode B hmode
  | code => exact continued_hasMode B _ hmode

end PgliteBuild
