import PgliteBuild.InteractiveOne.Code
import PgliteBuild.Pqcomm.InputOnce

/-! # What the code of `interactive_one` does, one step at a time

Every function between the entry of `interactive_one` and the hand-over of the reply acts on the state
in small steps: it changes control variables, it notes an event, it puts bytes on the connection
(`SendMove`), or it reads from it (`Move`). The lemmas of this file say which of these steps each
function performs. An invariant of the steps is then an invariant of the code (`Performs.keeps`),
whatever the backend does and however the function ends. -/

namespace PgliteBuild

open Effect Framing Relation

variable {σ α : Type} {b : Build} (B : Backend σ)

/-! ## Moves -/

/-- `s'` differs from `s` in variables that decide only what the loop does next. -/
structure SameFrame (s s' : State σ) : Prop where
  comm : s'.comm = s.comm
  cmaWsize : s'.cmaWsize = s.cmaWsize
  channel : s'.channel = s.channel
  isWire : s'.isWire = s.isWire
  isRepl : s'.isRepl = s.isRepl
  myProcPort : s'.myProcPort = s.myProcPort
  peek : s'.peek = s.peek
  fp : s'.fp = s.fp
  armed : s'.armed = s.armed
  trace : s'.trace = s.trace

/-- The events that the functions of this file note besides the bytes they put. -/
def Event.isNote : Event → Bool
  | raising _ | dispatch _ _ => true
  | sigsetjmp | put _ _ | wireFlush | rename | prompt => false

/-- One step of code that does not read. -/
inductive SendMove : State σ → State σ → Prop
  | control {s s' : State σ} : SameFrame s s' → SendMove s s'
  | note {s : State σ} {e : Event} :
      e.isNote = true → SendMove s { s with trace := s.trace ++ [e] }
  | put {s : State σ} (source : Source) (ops : List SendOp) :
      s.comm.socketFile.isSome →
      SendMove s { s with
        comm := ops.foldl Comm.send s.comm
        trace := s.trace ++ [.put source (ops.flatMap SendOp.bytes)] }
  | flush {s : State σ} : SendMove s { s with comm := s.comm.send .flush }
  /-- Without a socket file bytes are copied until the first redirect, which traps. -/
  | closed {s : State σ} {c : Comm} (events : List Event) :
      s.comm.socketFile = none → c.socketFile = none → c.recvSide = s.comm.recvSide →
      SendMove s { s with comm := c, trace := s.trace ++ events }

/-- One step of the code. -/
inductive Move (b : Build) : State σ → State σ → Prop
  | send {s s' : State σ} : SendMove s s' → Move b s s'
  | call {s : State σ} {c : Comm} (op : CallOp) :
      op.bytes = [] → op.step b s.comm c → Move b s { s with comm := c }
  /-- The first `pq_startmsgread` of a `discard_input` that then reads nothing. -/
  | negative {s : State σ} :
      s.comm.cmaRsize < 0 → Move b s { s with comm := s.comm.startmsgread b }
  /-- The end of the session also leaves repl mode. -/
  | leave {s s' : State σ} : SameFrame { s with isRepl := false } s' → Move b s s'

/-- A computation that does not read. -/
abbrev SendMoves (m : PgM σ α) : Prop := Performs SendMove m

/-- A computation of moves. -/
abbrev Moves (b : Build) (m : PgM σ α) : Prop := Performs (Move b) m

/-- Code that only sends is code. -/
theorem SendMoves.moves {m : PgM σ α} (h : SendMoves m) : Moves b m := h.mono fun _ _ => .send

/-! ## Control variables and events -/

/-- An assignment to control variables is a step that does not read. -/
theorem sends_modify {f : State σ → State σ} (hf : ∀ s, SameFrame s (f s)) :
    SendMoves (modify f : PgM σ Unit) := performs_modify fun s => .control (hf s)

/-- An assignment to control variables is a step of the code. -/
theorem moves_modify {f : State σ → State σ} (hf : ∀ s, SameFrame s (f s)) :
    Moves b (modify f : PgM σ Unit) := (sends_modify hf).moves

/-- Noting an event is a step that does not read. -/
theorem sends_record {e : Event} (he : e.isNote = true) : SendMoves (record e : PgM σ Unit) :=
  performs_modify fun _ => .note he

/-- Noting an event is a step of the code. -/
theorem moves_record {e : Event} (he : e.isNote = true) : Moves b (record e : PgM σ Unit) :=
  (sends_record he).moves

/-- Raising an error sets control variables only. -/
theorem sends_ereport (errcode : Errcode) (errmsg : String) :
    SendMoves (ereport errcode errmsg : PgM σ α) :=
  performs_bind (sends_modify fun _ => by constructor <;> rfl) fun _ => performs_throw _

/-- Raising an error is a step of the code. -/
theorem moves_ereport (errcode : Errcode) (errmsg : String) :
    Moves b (ereport errcode errmsg : PgM σ α) := (sends_ereport errcode errmsg).moves

/-- An operation that can raise an error: it is noted, and then it takes steps of `R`. -/
def Raises (R : State σ → State σ → Prop) (op : Raiser) (m : PgM σ α) : Prop :=
  ∃ rest, Performs R rest ∧ m = (do
    record (.raising op)
    rest)

/-- An operation that raises an error and only sends, only sends with its note as well. -/
theorem Raises.sends {op : Raiser} {m : PgM σ α} (h : Raises SendMove op m) : SendMoves m := by
  obtain ⟨rest, hrest, rfl⟩ := h
  exact performs_bind (sends_record rfl) fun _ => hrest

/-- An operation that raises an error takes steps of the code, its note included. -/
theorem Raises.moves {op : Raiser} {m : PgM σ α} (h : Raises (Move b) op m) : Moves b m := by
  obtain ⟨rest, hrest, rfl⟩ := h
  exact performs_bind (moves_record rfl) fun _ => hrest

/-- An operation that only sends may be taken for one that reads. -/
theorem Raises.reading {op : Raiser} {m : PgM σ α} (h : Raises SendMove op m) :
    Raises (Move b) op m := by
  obtain ⟨rest, hrest, hm⟩ := h
  exact ⟨rest, SendMoves.moves hrest, hm⟩

/-! ## Reading -/

/-- `pq_getbyte` is one call on the connection. -/
theorem moves_getbyte : Moves b (liftRecv (pqGetbyte b) : PgM σ (Option UInt8)) := fun _ =>
  .single (.call .getbyte rfl rfl)

/-- `pq_getmessage` is one call on the connection. -/
theorem moves_getmessage (maxlen : ℕ) :
    Moves b (liftRecv (pqGetmessage b maxlen) : PgM σ (Option (List UInt8))) := fun _ =>
  .single (.call (.getmessage maxlen) rfl rfl)

/-- `pq_endmsgread` is one call on the connection. -/
theorem moves_endmsgread : Moves b (liftComm pqEndmsgread : PgM σ Unit) := fun _ =>
  .single (.call .endmsgread rfl rfl)

/-- A reader starts a message and reads its first byte; while another message is being read it ends
the process instead. -/
theorem moves_startmsg {f : Option UInt8 → PgM σ α} (hf : ∀ x, Moves b (f x)) :
    Moves b (do
      liftComm (pqStartmsgread b)
      let x ← liftRecv (pqGetbyte b)
      f x) := by
  intro s
  rcases Bool.eq_false_or_eq_true s.comm.pqCommReadingMsg with hreading | hreading
  · rw [wp_bind, wp_liftComm, wp_of_error (pqStartmsgread_reading hreading)]
  · rw [wp_bind, wp_liftComm, wp_of_ok (pqStartmsgread_eq hreading), wp_bind, wp_liftRecv]
    have hstep : CallOp.step b s.comm .startmsg (pqGetbyte b (s.comm.startmsgread b)).2 := by
      rw [CallOp.step, CallOp.run, run_bind_ok (pqStartmsgread_eq hreading)]
      rfl
    have hmove : Move b s { s with comm := (pqGetbyte b (s.comm.startmsgread b)).2 } :=
      .call .startmsg rfl hstep
    exact wp_mono (hf _ _) (fun _ _ h => .head hmove h) fun _ _ h => .head hmove h

/-! ## Sending -/

/-- A flush is one step that does not read. -/
theorem sends_flush : SendMoves (liftComm internalFlush : PgM σ Unit) := fun _ => .single .flush

/-- A flush is one step of the code. -/
theorem moves_flush : Moves b (liftComm internalFlush : PgM σ Unit) := sends_flush.moves

/-- Without a socket file a copy loop ends without one. -/
theorem internalPutbytesLoop_closed (fuel : ℕ) (s : List UInt8) {c : Comm} (h : c.socketFile = none) :
    wp (internalPutbytesLoop fuel s)
      (fun _ c' => c'.socketFile = none ∧ c'.recvSide = c.recvSide)
      (fun _ c' => c'.socketFile = none ∧ c'.recvSide = c.recvSide) c := by
  induction fuel generalizing s c with
  | zero => exact ⟨h, rfl⟩
  | succ fuel ih =>
      rw [internalPutbytesLoop, wp_bind, wp_get]
      split_ifs
      · exact ⟨h, rfl⟩
      · rw [wp_bind, fwriteSocketFile, wp_bind, wp_get, h]
        exact ⟨h, rfl⟩
      · rw [wp_bind, wp_modify]
        exact ih _ h

/-- Without a socket file the bytes are put or the process dies, and the receive side stays as it is. -/
theorem internalPutbytes_closed (s : List UInt8) {c : Comm} (h : c.socketFile = none) :
    wp (internalPutbytes s)
      (fun _ c' => c'.socketFile = none ∧ c'.recvSide = c.recvSide)
      (fun _ c' => c'.socketFile = none ∧ c'.recvSide = c.recvSide) c := by
  have hrest : ∀ (rest : List UInt8) (c' : Comm), c'.socketFile = none ∧ c'.recvSide = c.recvSide →
      wp (fwriteRedirected rest)
        (fun _ c' => c'.socketFile = none ∧ c'.recvSide = c.recvSide)
        (fun _ c' => c'.socketFile = none ∧ c'.recvSide = c.recvSide) c' := by
    rintro rest c' ⟨hfile, hsize⟩
    rw [fwriteRedirected, wp_bind, wp_get]
    split_ifs
    · rw [wp_bind, fwriteSocketFile, wp_bind, wp_get, hfile]
      exact ⟨hfile, hsize⟩
    · exact ⟨hfile, hsize⟩
  rw [internalPutbytes, wp_bind, wp_get]
  split_ifs
  · exact hrest s c ⟨h, rfl⟩
  · rw [wp_bind]
    exact wp_mono (internalPutbytesLoop_closed _ s h) hrest fun _ _ h' => h'

/-- Putting bytes on the connection and noting it is one step. -/
theorem sends_put (source : Source) (ops : List SendOp) {m : CommM Unit}
    (hopen : ∀ c, c.socketFile.isSome → m c = .ok () (ops.foldl Comm.send c))
    (hclosed : ∀ c, c.socketFile = none → wp m
      (fun _ c' => c'.socketFile = none ∧ c'.recvSide = c.recvSide)
      (fun _ c' => c'.socketFile = none ∧ c'.recvSide = c.recvSide) c) :
    SendMoves (do
      liftComm m
      record (.put source (ops.flatMap SendOp.bytes)) : PgM σ Unit) := by
  intro s
  rw [wp_bind, wp_liftComm]
  rcases Option.eq_none_or_eq_some s.comm.socketFile with hnone | ⟨content, hsome⟩
  · refine wp_mono (hclosed s.comm hnone) (fun _ c' hc' => ?_) fun _ c' hc' => ?_
    · exact .single (.closed [_] hnone hc'.1 hc'.2)
    · have hmove : SendMove s { s with comm := c', trace := s.trace ++ [] } :=
        .closed [] hnone hc'.1 hc'.2
      rw [List.append_nil] at hmove
      exact .single hmove
  · have hfile : s.comm.socketFile.isSome := by simp [hsome]
    rw [wp_of_ok (hopen s.comm hfile)]
    exact .single (.put source ops hfile)

/-- Putting bytes on behalf of a source is one step that does not read. -/
theorem sends_putbytes (source : Source) (bytes : List UInt8) :
    SendMoves (do
      liftComm (internalPutbytes bytes)
      record (.put source bytes) : PgM σ Unit) := by
  have hput := sends_put (σ := σ) source [.putbytes bytes]
    (fun c hc => internalPutbytes_eq hc bytes) fun c hc => internalPutbytes_closed bytes hc
  rwa [List.flatMap_singleton] at hput

/-- The sends of one protocol message. -/
def messageSends (msgtype : UInt8) (body : List UInt8) : List SendOp :=
  [.putbytes [msgtype], .putbytes (word32 (body.length + 4)), .putbytes body]

/-- The sends of a message put its type, its length word and its body. -/
@[simp] theorem bytes_messageSends (msgtype : UInt8) (body : List UInt8) :
    (messageSends msgtype body).flatMap SendOp.bytes = msgtype :: encodeBody body := by
  simp [messageSends, SendOp.bytes, encodeBody]

/-- With a socket file `pq_putmessage` puts the message and returns. -/
theorem pqPutmessage_eq {c : Comm} (hfile : c.socketFile.isSome) (msgtype : UInt8)
    (body : List UInt8) :
    pqPutmessage msgtype body c = .ok () ((messageSends msgtype body).foldl Comm.send c) := by
  have hfile₁ : (c.putbytes [msgtype]).socketFile.isSome := by simpa using hfile
  have hfile₂ : ((c.putbytes [msgtype]).putbytes (word32 (body.length + 4))).socketFile.isSome := by
    simpa using hfile
  rw [pqPutmessage, run_bind_ok (internalPutbytes_eq hfile _),
    run_bind_ok (internalPutbytes_eq hfile₁ _)]
  exact internalPutbytes_eq hfile₂ _

/-- Putting a protocol message is one step that does not read. -/
theorem sends_putmessage (source : Source) (msgtype : UInt8) (body : List UInt8) :
    SendMoves (putmessage source msgtype body : PgM σ Unit) := by
  have hput := sends_put (σ := σ) source (messageSends msgtype body)
    (fun c hc => pqPutmessage_eq hc msgtype body) fun c hc => by
      rw [pqPutmessage, wp_bind]
      refine wp_mono (internalPutbytes_closed _ hc) (fun _ c₁ hc₁ => ?_) fun _ _ h => h
      rw [wp_bind]
      refine wp_mono (internalPutbytes_closed _ hc₁.1) (fun _ c₂ hc₂ => ?_)
        fun _ _ h => ⟨h.1, h.2.trans hc₁.2⟩
      exact wp_mono (internalPutbytes_closed _ hc₂.1)
        (fun _ _ h => ⟨h.1, h.2.trans (hc₂.2.trans hc₁.2)⟩)
        fun _ _ h => ⟨h.1, h.2.trans (hc₂.2.trans hc₁.2)⟩
  rwa [bytes_messageSends] at hput

/-! ## Backend actions and reports -/

/-- The reading of a COPY message is a row of calls on the connection. -/
theorem moves_copyRead : Moves b (copyRead b : PgM σ Unit) := by
  refine moves_startmsg fun x => ?_
  cases x with
  | none => exact moves_ereport _ _
  | some t =>
      dsimp only
      cases (FrontendMsg.ofCode t).filter FrontendMsg.inCopy with
      | none => exact moves_ereport _ _
      | some m =>
          refine performs_bind (moves_getmessage _) fun body => ?_
          cases body with
          | none => exact moves_ereport _ _
          | some body => exact performs_pure _

/-- Each action of a handler is a step of the code. -/
theorem moves_runAction (source : Source) (a : Action) :
    Moves b (runAction b source a : PgM σ Unit) := by
  cases a with
  | putbytes bytes => exact (sends_putbytes source bytes).moves
  | flush => exact moves_flush
  | copyRead => exact moves_copyRead

/-- The actions of a handler are steps of the code. -/
theorem moves_runActions (source : Source) (as : List Action) :
    Moves b (runActions b source as : PgM σ Unit) := by
  induction as with
  | nil => exact performs_pure _
  | cons a as ih => exact performs_bind (moves_runAction source a) fun _ => ih

/-- Backend code that reads no message only sends. -/
theorem sends_runActions (source : Source) {as : List Action} (hreads : as.count .copyRead = 0) :
    SendMoves (runActions b source as : PgM σ Unit) := by
  induction as with
  | nil => exact performs_pure _
  | cons a as ih =>
      rw [List.count_cons, Nat.add_eq_zero_iff] at hreads
      refine performs_bind ?_ fun _ => ih hreads.1
      cases a with
      | putbytes bytes => exact sends_putbytes source bytes
      | flush => exact sends_flush
      | copyRead => simp at hreads

/-- The end of `respond`, behind the actions. -/
def settle (r : Response σ) : PgM σ Unit := do
  modify fun s => { s with
    db := r.next
    notifyInterruptPending := s.notifyInterruptPending || r.notify }
  match r.error with
  | none => pure ()
  | some e => ereport e.errcode e.errmsg

/-- The end of a response sets the session and may report an error. -/
theorem performs_settle {R : State σ → State σ → Prop} {r : Response σ}
    (hset : ∀ s : State σ, R s { s with
      db := r.next, notifyInterruptPending := s.notifyInterruptPending || r.notify })
    (hreport : ∀ e : ErrorReport, Performs R (ereport e.errcode e.errmsg : PgM σ Unit)) :
    Performs R (settle r) := by
  refine performs_bind (performs_modify hset) fun _ => ?_
  cases r.error with
  | none => exact performs_pure _
  | some e => exact hreport e

/-- A response is its actions, if it uses the connection, and its end. -/
theorem performs_respond_settle {R : State σ → State σ → Prop} {source : Source} {r : Response σ}
    (hactions : Performs R (runActions b source r.actions)) (hsettle : Performs R (settle r)) :
    Performs R (respond b source r) := by
  refine performs_bind performs_get fun s => ?_
  dsimp only
  split
  · exact performs_bind hactions fun _ => hsettle
  · exact hsettle

/-- What a response ends with, by its actions and its end. -/
theorem wp_respond {Q : Unit → State σ → Prop} {T : Stop → State σ → Prop} {source : Source} {r : Response σ}
    {s : State σ} (hremote : s.whereToSendOutput = .remote →
      wp (runActions b source r.actions) (fun _ => wp (settle r) Q T) T s)
    (hother : s.whereToSendOutput ≠ .remote → wp (settle r) Q T s) : wp (respond b source r) Q T s := by
  rw [respond, wp_bind, wp_get]
  split_ifs with hdest
  · exact (wp_bind _ _ _ _ _).mpr (hremote hdest)
  · exact hother hdest

section Respond

variable {R : State σ → State σ → Prop} (hR : ∀ s s', SendMove s s' → R s s')

include hR

/-- A response performs what its actions perform. -/
theorem performs_respond (source : Source) (r : Response σ)
    (hactions : Performs R (runActions b source r.actions)) : Performs R (respond b source r) := by
  refine performs_respond_settle hactions ((performs_settle ?_ ?_).mono hR)
  · exact fun _ => .control (by constructor <;> rfl)
  · exact fun e => sends_ereport e.errcode e.errmsg

/-- `ProcessNotifyInterrupt` can raise an error, and it performs what its response performs. -/
theorem raises_processNotifyInterrupt (hrespond : ∀ d, Performs R (respond b .notification
    (B.processNotify d))) : Raises R .processNotifyInterrupt (processNotifyInterrupt b B) := by
  refine ⟨_, ?_, rfl⟩
  refine performs_bind performs_get fun s => ?_
  refine performs_ite ?_ (performs_pure _)
  refine performs_bind ((sends_modify fun _ => by constructor <;> rfl).mono hR) fun _ => ?_
  exact performs_bind performs_get fun s => hrespond s.db

end Respond

/-- A response of the backend takes steps of the code. -/
theorem moves_respond (source : Source) (r : Response σ) : Moves b (respond b source r) :=
  performs_respond (fun _ _ => .send) source r (moves_runActions source r.actions)

/-- A response that reads no message only sends. -/
theorem sends_respond (source : Source) {r : Response σ} (hreads : r.reads = 0) :
    SendMoves (respond b source r) :=
  performs_respond (fun _ _ => id) source r (sends_runActions source hreads)

/-- `ReadyForQuery` can raise an error, and it only sends. -/
theorem raises_readyForQuery (dest : CommandDest) :
    Raises SendMove .readyForQuery (readyForQuery B dest) := by
  refine ⟨_, ?_, rfl⟩
  refine performs_ite ?_ (performs_pure _)
  refine performs_bind performs_get fun s => ?_
  exact performs_bind (sends_putmessage _ _ _) fun _ => sends_flush

/-- `ProcessNotifyInterrupt` can raise an error, and it takes steps of the code. -/
theorem moves_processNotifyInterrupt :
    Raises (Move b) .processNotifyInterrupt (processNotifyInterrupt b B) :=
  raises_processNotifyInterrupt B (fun _ _ => .send) fun _ => moves_respond .notification _

/-- `EmitErrorReport` only sends. -/
theorem sends_emitErrorReport : SendMoves (emitErrorReport B) := by
  refine performs_bind performs_get fun s => ?_
  cases s.errordata with
  | none => exact performs_pure _
  | some e =>
      refine performs_bind performs_get fun s => ?_
      dsimp only
      split
      · refine performs_bind (sends_putmessage _ _ _) fun _ => performs_bind sends_flush fun _ => ?_
        exact sends_modify fun _ => by constructor <;> rfl
      · exact sends_modify fun _ => by constructor <;> rfl

section Handler

variable {R : State σ → State σ → Prop} (hreport : Performs R (emitErrorReport B))
  (habort : ∀ s, R s { s with db := B.abortTransaction s.db })
    (hskip : ∀ s, R s { s with ignoreTillSync := true })
  (hready : ∀ s, R s { s with sendReadyForQuery := true })

include hreport habort hskip hready

/-- Clearing an error performs what its report and its assignments perform. -/
theorem performs_clearError : Performs R (clearError B) := by
  -- what follows the test of `doing_extended_query_message`
  have hrest : Performs R (do
      if (← get).comm.pqCommReadingMsg then throw (.fatal syncLost)
      if !(← get).ignoreTillSync then
        modify fun s => { s with sendReadyForQuery := true } : PgM σ Unit) := by
    have hlast : Performs R (do
        if !(← get).ignoreTillSync then
          modify fun s => { s with sendReadyForQuery := true } : PgM σ Unit) :=
      performs_bind performs_get fun s => performs_ite (performs_modify hready) (performs_pure _)
    refine performs_bind performs_get fun s => ?_
    dsimp only
    split
    · exact performs_bind (performs_throw _) fun _ => hlast
    · exact hlast
  refine performs_bind hreport fun _ => performs_bind (performs_modify habort) fun _ => ?_
  refine performs_bind performs_get fun s => ?_
  dsimp only
  split
  · exact performs_bind (performs_modify hskip) fun _ => hrest
  · exact hrest

/-- The handler performs what clearing the error performs, and it counts. -/
theorem performs_handler (hcanary : ∀ s, R s { s with canaryEx := s.canaryEx + 1 })
    (hjump : ∀ s, R s { s with pipelining := s.pipelining || b.pipeliningRestored }) :
    Performs R (handler b B) := by
  have hincoming : Performs R (do
      modify fun s => { s with canaryEx := s.canaryEx + 1 }
      pure .incoming : PgM σ Label) := performs_bind (performs_modify hcanary) fun _ => performs_pure _
  refine performs_bind (performs_modify hjump) fun _ => ?_
  refine performs_bind (performs_clearError B hreport habort hskip hready) fun _ => ?_
  refine performs_bind performs_get fun s => performs_ite ?_ (performs_pure _)
  refine performs_bind performs_get fun s => ?_
  dsimp only
  split
  · exact performs_bind (performs_throw _) fun _ => hincoming
  · exact hincoming

end Handler

/-- `clear_error` only sends. -/
theorem sends_clearError : SendMoves (clearError B) :=
  performs_clearError B (sends_emitErrorReport B) (fun _ => .control (by constructor <;> rfl))
    (fun _ => .control (by constructor <;> rfl)) fun _ => .control (by constructor <;> rfl)

/-- The handler only sends. -/
theorem sends_handler : SendMoves (handler b B) :=
  performs_handler B (sends_emitErrorReport B) (fun _ => .control (by constructor <;> rfl))
    (fun _ => .control (by constructor <;> rfl)) (fun _ => .control (by constructor <;> rfl))
    (fun _ => .control (by constructor <;> rfl)) fun _ => .control (by constructor <;> rfl)

/-- The handler goes back to `incoming`, or on to `wire_flush`. -/
theorem handler_label : Returns (fun l => l = .incoming ∨ l = .wireFlush) (handler b B) := by
  refine returns_bind fun _ => returns_bind fun _ => returns_bind fun s =>
    returns_ite ?_ (returns_pure (.inr rfl))
  refine returns_bind fun s => ?_
  dsimp only
  split
  · exact returns_bind fun _ => returns_bind fun _ => returns_pure (.inl rfl)
  · exact returns_bind fun _ => returns_pure (.inl rfl)

/-! ## Startup and authentication -/

/-- Discarding bytes reads them one by one. -/
theorem moves_discardBytes (n : ℕ) : Moves b (discardBytes b n : PgM σ Unit) := by
  induction n with
  | zero => exact performs_pure _
  | succ n ih => exact performs_bind moves_getbyte fun _ => ih

/-- `discard_input` takes steps of the code. -/
theorem moves_discardInput : Moves b (discardInput b : PgM σ Unit) := by
  intro s
  rw [discardInput, wp_bind, wp_get]
  split_ifs with hzero
  · exact .refl
  rcases Bool.eq_false_or_eq_true s.comm.pqCommReadingMsg with hreading | hreading
  · rw [wp_bind, wp_liftComm, wp_of_error (pqStartmsgread_reading hreading)]
  have hsize : (s.comm.startmsgread b).cmaRsize = s.comm.cmaRsize := startmsgread_cmaRsize b s.comm
  rw [wp_bind, wp_liftComm, wp_of_ok (pqStartmsgread_eq hreading), wp_bind, wp_get]
  simp only [hsize]
  rcases Int.lt_or_lt_of_ne hzero with hneg | hpos
  · -- nothing is read
    obtain hn : s.comm.cmaRsize.toNat = 0 := Int.toNat_of_nonpos hneg.le
    have hrest : Moves b (do
        discardBytes b 0
        liftComm pqEndmsgread : PgM σ Unit) :=
      performs_bind (moves_discardBytes 0) fun _ => moves_endmsgread
    rw [hn]
    exact wp_mono (hrest _) (fun _ _ h => .head (.negative hneg) h)
      fun _ _ h => .head (.negative hneg) h
  · obtain ⟨n, hn⟩ : ∃ n, s.comm.cmaRsize.toNat = n + 1 := ⟨s.comm.cmaRsize.toNat - 1, by omega⟩
    have hread : Moves b (do
        liftComm (pqStartmsgread b)
        discardBytes b (n + 1)
        liftComm pqEndmsgread : PgM σ Unit) :=
      moves_startmsg fun _ => performs_bind (moves_discardBytes n) fun _ => moves_endmsgread
    have hwp := hread s
    rw [wp_bind, wp_liftComm, wp_of_ok (pqStartmsgread_eq hreading)] at hwp
    rw [hn]
    exact hwp

/-- `startup_auth` can raise an error, and it takes steps of the code. -/
theorem raises_startupAuth : Raises (Move b) .startupAuth (startupAuth b : PgM σ Unit) := by
  refine ⟨_, ?_, rfl⟩
  refine performs_bind (moves_modify fun _ => by constructor <;> rfl) fun _ => ?_
  refine performs_bind (moves_modify fun _ => by constructor <;> rfl) fun _ => ?_
  refine performs_bind moves_discardInput fun _ => ?_
  refine performs_bind (moves_modify fun _ => by constructor <;> rfl) fun _ => ?_
  exact performs_bind (sends_putmessage _ _ _).moves fun _ => moves_flush

/-- `recv_password_packet` takes steps of the code. -/
theorem moves_recvPasswordPacket :
    Moves b (recvPasswordPacket b : PgM σ (Option (List UInt8))) := by
  refine moves_startmsg fun x => ?_
  cases x with
  | none => exact performs_pure _
  | some t =>
      refine performs_ite (moves_ereport _ _) (performs_bind (moves_getmessage _) fun body => ?_)
      cases body with
      | none => exact performs_pure _
      | some body =>
          exact performs_ite (moves_ereport _ _) (performs_ite (moves_ereport _ _) (performs_pure _))

/-- A row of protocol messages is put without reading. -/
theorem sends_putmessages (source : Source) (msgtype : UInt8) (bodies : List (List UInt8)) :
    SendMoves (putmessages source msgtype bodies : PgM σ Unit) := by
  induction bodies with
  | nil => exact performs_pure _
  | cons body bodies ih => exact performs_bind (sends_putmessage _ _ _) fun _ => ih

/-- The acceptance of a password only sends. -/
theorem sends_accept : SendMoves (do
    modify fun s => { s with clientAuthInProgress := false }
    putmessage .auth 82 (word32 0)
    putmessages .auth 83 (B.gucReport (← get).db)
    putmessage .auth 75 B.backendKey
    modify fun s => { s with sendReadyForQuery := true, ignoreTillSync := false } : PgM σ Unit) := by
  refine performs_bind (sends_modify fun _ => by constructor <;> rfl) fun _ => ?_
  refine performs_bind (sends_putmessage _ _ _) fun _ => performs_bind performs_get fun s => ?_
  refine performs_bind (sends_putmessages _ _ _) fun _ => ?_
  refine performs_bind (sends_putmessage _ _ _) fun _ => ?_
  exact sends_modify fun _ => by constructor <;> rfl

/-- `startup_pass` can raise an error, and it takes steps of the code. -/
theorem raises_startupPass (check : Bool) : Raises (Move b) .startupPass (startupPass b B check) := by
  have hrest : Moves b (do
      modify fun s => { s with clientAuthInProgress := false }
      putmessage .auth 82 (word32 0)
      putmessages .auth 83 (B.gucReport (← get).db)
      putmessage .auth 75 B.backendKey
      modify fun s => { s with sendReadyForQuery := true, ignoreTillSync := false } : PgM σ Unit) :=
    SendMoves.moves (sends_accept B)
  refine ⟨_, ?_, rfl⟩
  dsimp only
  split
  · refine performs_bind moves_recvPasswordPacket fun passwd => ?_
    cases passwd with
    | none => exact performs_bind (performs_throw _) fun _ => hrest
    | some body => exact hrest
  · exact performs_bind moves_discardInput fun _ => hrest

/-! ## Messages -/

/-- `SocketBackend` takes steps of the code. -/
theorem moves_socketBackend : Moves b (socketBackend b B) := by
  refine performs_bind (moves_record rfl) fun _ => moves_startmsg fun x => ?_
  cases x with
  | none =>
      refine performs_bind performs_get fun s => ?_
      dsimp only
      split
      · exact performs_bind (moves_modify fun _ => by constructor <;> rfl) fun _ => performs_pure _
      · exact performs_pure _
  | some t =>
      dsimp only
      cases FrontendMsg.ofCode t with
      | none => exact performs_throw _
      | some m =>
          refine performs_bind (moves_modify fun _ => by constructor <;> rfl) fun _ => ?_
          refine performs_bind (moves_getmessage _) fun body => ?_
          cases body with
          | none => exact performs_pure _
          | some body =>
              exact performs_bind (moves_modify fun _ => by constructor <;> rfl) fun _ =>
                performs_pure _

/-- The end of a session assigns control variables. -/
theorem moves_closeConnection : Moves b (closeConnection : PgM σ Unit) :=
  performs_modify fun _ => .leave (by constructor <;> rfl)

/-- Leaving ReadyForQuery for later assigns a control variable. -/
theorem moves_deferReadyForQuery : Moves b (deferReadyForQuery : PgM σ Unit) :=
  moves_modify fun _ => by constructor <;> rfl

/-- The message switch takes steps of the code. -/
theorem moves_protoSwitch (firstchar : Option FrontendMsg) : Moves b (protoSwitch b B firstchar) := by
  refine performs_bind (moves_record rfl) fun _ => performs_bind performs_get fun s => ?_
  cases firstchar with
  | none => exact performs_bind moves_closeConnection fun _ => performs_pure _
  | some m =>
      refine performs_bind (moves_record rfl) fun _ => ?_
      cases m with
      | query | functionCall | sync | parse =>
          exact performs_bind (moves_respond _ _) fun _ =>
            performs_bind (moves_modify fun _ => by constructor <;> rfl) fun _ => performs_pure _
      | bind | execute | describe =>
          exact performs_bind (moves_respond _ _) fun _ =>
            performs_bind moves_deferReadyForQuery fun _ => performs_pure _
      | close =>
          refine performs_bind (moves_respond _ _) fun _ => performs_bind performs_get fun s => ?_
          have hrest : Moves b (do
              deferReadyForQuery
              pure false : PgM σ Bool) :=
            performs_bind moves_deferReadyForQuery fun _ => performs_pure _
          dsimp only
          split
          · exact performs_bind (sends_putmessage _ _ _).moves fun _ => hrest
          · exact hrest
      | flush =>
          refine performs_ite (moves_ereport _ _) ?_
          dsimp only
          split
          · exact performs_bind moves_flush fun _ => performs_pure _
          · exact performs_pure _
      | terminate => exact performs_bind moves_closeConnection fun _ => performs_pure _
      | copyData | copyDone | copyFail => exact performs_pure _

/-! ## The loop and the end of the reply -/

/-- Reading the next message of the loop takes steps of the code. -/
theorem moves_nextMessage : Moves b (nextMessage b B) := by
  refine performs_bind performs_get fun s => performs_ite ?_ ?_
  · exact performs_bind (moves_socketBackend B) fun _ =>
      performs_bind (moves_modify fun _ => by constructor <;> rfl) fun _ => performs_pure _
  · exact performs_bind (moves_modify fun _ => by constructor <;> rfl) fun _ => performs_pure _

/-- The end of a round takes steps of the code. -/
theorem moves_betweenMessages : Moves b (betweenMessages B) := by
  refine performs_bind performs_get fun s => performs_ite ?_ (performs_pure _)
  refine performs_bind (moves_modify fun _ => by constructor <;> rfl) fun _ => ?_
  refine performs_bind performs_get fun s => performs_bind performs_get fun s' => ?_
  refine performs_ite ?_ (performs_pure _)
  refine performs_bind performs_get fun s => performs_bind (raises_readyForQuery B _).sends.moves fun _ => ?_
  exact moves_modify fun _ => by constructor <;> rfl

/-- A round of the loop takes steps of the code. -/
theorem moves_loopRound : Moves b (loopRound b B) := by
  have hmessage : Moves b (do
      let firstchar ← nextMessage b B
      if (← get).ignoreTillSync && firstchar.any (· ≠ .sync) then pure .loop
      else if ← protoSwitch b B firstchar then pure .wireFlush
      else
        betweenMessages B
        pure .loop : PgM σ Label) := by
    refine performs_bind (moves_nextMessage B) fun firstchar => ?_
    refine performs_bind performs_get fun s => performs_ite (performs_pure _) ?_
    refine performs_bind (moves_protoSwitch B firstchar) fun shortcut => ?_
    exact performs_ite (performs_pure _)
      (performs_bind (moves_betweenMessages B) fun _ => performs_pure _)
  have hround : Moves b (do
      if (← get).isWire && (← get).peek = some 0 then
        startupAuth b
        pure .resumeOnError
      else if (← get).isWire && (← get).peek = some 112 then
        startupPass b B true
        pure .resumeOnError
      else
        let firstchar ← nextMessage b B
        if (← get).ignoreTillSync && firstchar.any (· ≠ .sync) then pure .loop
        else if ← protoSwitch b B firstchar then pure .wireFlush
        else
          betweenMessages B
          pure .loop : PgM σ Label) := by
    refine performs_bind performs_get fun s => performs_bind performs_get fun s' => ?_
    refine performs_ite (performs_bind raises_startupAuth.moves fun _ => performs_pure _) ?_
    refine performs_bind performs_get fun s => performs_bind performs_get fun s' => ?_
    exact performs_ite (performs_bind (raises_startupPass B true).moves fun _ => performs_pure _) hmessage
  refine performs_bind performs_get fun s => ?_
  dsimp only
  split
  · exact performs_bind (moves_modify fun _ => by constructor <;> rfl) fun _ => hround
  · exact hround

/-- A round goes on with the loop, or it leaves it. -/
theorem loopRound_label :
    Returns (fun l => l = .loop ∨ l = .resumeOnError ∨ l = .wireFlush) (loopRound b B) := by
  have hmessage : Returns (fun l => l = .loop ∨ l = .resumeOnError ∨ l = .wireFlush) (do
      let firstchar ← nextMessage b B
      if (← get).ignoreTillSync && firstchar.any (· ≠ .sync) then pure .loop
      else if ← protoSwitch b B firstchar then pure .wireFlush
      else
        betweenMessages B
        pure .loop : PgM σ Label) := by
    refine returns_bind fun _ => returns_bind fun _ => returns_ite (returns_pure (.inl rfl)) ?_
    refine returns_bind fun _ => returns_ite (returns_pure (.inr (.inr rfl))) ?_
    exact returns_bind fun _ => returns_pure (.inl rfl)
  have hauth : ∀ m : PgM σ Unit, Returns (fun l => l = .loop ∨ l = .resumeOnError ∨ l = .wireFlush)
      (do m; pure .resumeOnError : PgM σ Label) :=
    fun m => returns_bind fun _ => returns_pure (.inr (.inl rfl))
  refine returns_bind fun s => ?_
  dsimp only
  split
  all_goals
    first
      | refine returns_bind fun _ => returns_bind fun _ => returns_bind fun _ => returns_ite (hauth _) ?_
      | refine returns_bind fun _ => returns_bind fun _ => returns_ite (hauth _) ?_
    exact returns_bind fun _ => returns_bind fun _ => returns_ite (hauth _) hmessage

/-- The last ReadyForQuery of a reply is put without reading. -/
theorem sends_lastReadyForQuery : SendMoves (lastReadyForQuery B) := by
  refine performs_bind performs_get fun s => performs_ite ?_ (performs_pure _)
  exact performs_bind (raises_readyForQuery B _).sends fun _ =>
    sends_modify fun _ => by constructor <;> rfl

section Notify

variable {R : State σ → State σ → Prop} (hR : ∀ s s', SendMove s s' → R s s')
  (hnotify : Performs R (processNotifyInterrupt b B))

include hR hnotify

/-- The end of a reply performs what the delivery of notifications and the last ReadyForQuery perform. -/
theorem performs_finishReply : Performs R (finishReply b B) := by
  refine performs_bind performs_get fun s => performs_ite ?_ (performs_pure _)
  refine performs_bind performs_get fun s => ?_
  dsimp only
  split
  · exact performs_bind hnotify fun _ => (sends_lastReadyForQuery B).mono hR
  · exact (sends_lastReadyForQuery B).mono hR

/-- The way in performs what the delivery of notifications performs, and assigns control variables. -/
theorem performs_prologue : Performs R (prologue b B) := by
  have hrest : Performs R (modify fun s => { s with sendReadyForQuery := false } : PgM σ Unit) :=
    (sends_modify fun _ => by constructor <;> rfl).mono hR
  refine performs_bind performs_get fun s => performs_ite ?_ (performs_pure _)
  refine performs_bind performs_get fun s => performs_bind performs_get fun s' => ?_
  dsimp only
  split
  · exact performs_bind hnotify fun _ => hrest
  · exact hrest

end Notify

/-- The end of a reply takes steps of the code. -/
theorem moves_finishReply : Moves b (finishReply b B) :=
  performs_finishReply B (fun _ _ => .send) (moves_processNotifyInterrupt B).moves

/-- The way in takes steps of the code. -/
theorem moves_prologue : Moves b (prologue b B) :=
  performs_prologue B (fun _ _ => .send) (moves_processNotifyInterrupt B).moves

section Quiet

variable (hreads : ∀ d, (B.processNotify d).reads = 0)

include hreads

/-- Notifications are delivered without reading from the connection. -/
theorem sends_processNotifyInterrupt : SendMoves (processNotifyInterrupt b B) :=
  (raises_processNotifyInterrupt B (fun _ _ => id) fun d => sends_respond .notification (hreads d)).sends

/-- The end of a reply only sends, if the delivery of notifications reads nothing. -/
theorem sends_finishReply : SendMoves (finishReply b B) :=
  performs_finishReply B (fun _ _ => id) (sends_processNotifyInterrupt B hreads)

/-- The way in only sends, if the delivery of notifications reads nothing. -/
theorem sends_prologue : SendMoves (prologue b B) :=
  performs_prologue B (fun _ _ => id) (sends_processNotifyInterrupt B hreads)

end Quiet

/-! ## The receive side -/

/-- A step that does not read keeps the receive side. -/
theorem SendMove.recvSide {s s' : State σ} (h : SendMove s s') : s'.comm.recvSide = s.comm.recvSide := by
  cases h with
  | control hframe => rw [hframe.comm]
  | note _ => rfl
  | put source ops _ => exact recvSide_sends _ ops
  | flush => exact recvSide_send _ .flush
  | closed events _ _ hsame => exact hsame

/-- Computations that keep the receive side. -/
abbrev KeepsInput (m : PgM σ α) : Prop :=
  Performs (fun s s' => s'.comm.recvSide = s.comm.recvSide) m

/-- Code that only sends keeps the receive side. -/
theorem keepsInput_of_sends {m : PgM σ α} (h : SendMoves m) : KeepsInput m :=
  Performs.mono h fun _ _ => SendMove.recvSide

/-- An assignment to other variables than the receive side keeps it. -/
theorem keepsInput_modify {f : State σ → State σ} (hf : ∀ s, (f s).comm.recvSide = s.comm.recvSide) :
    KeepsInput (modify f : PgM σ Unit) := performs_modify hf

/-- The receive side stays on both ways out of a computation that keeps it. -/
theorem KeepsInput.recvSide {m : PgM σ α} (h : KeepsInput m) (s : State σ) :
    wp m (fun _ s' => s'.comm.recvSide = s.comm.recvSide) (fun _ s' => s'.comm.recvSide = s.comm.recvSide) s :=
  h.keeps (fun _ _ hs hstep => hstep.trans hs) rfl

/-- The same receive side is the same buffer. -/
theorem remaining_of_recvSide {c c' : Comm} (h : c'.recvSide = c.recvSide) :
    c'.pqBufferRemainingData = c.pqBufferRemainingData := by
  have hsame := congrArg (fun c : Comm => c.pqRecvLength - c.pqRecvPointer) h
  exact hsame

/-- As much data is buffered on both ways out as there was. -/
theorem KeepsInput.spec {m : PgM σ α} (h : KeepsInput m) (s : State σ) :
    wp m (fun _ s' => s'.comm.pqBufferRemainingData = s.comm.pqBufferRemainingData)
      (fun _ s' => s'.comm.pqBufferRemainingData = s.comm.pqBufferRemainingData) s :=
  wp_mono (h.recvSide s) (fun _ _ => remaining_of_recvSide) fun _ _ => remaining_of_recvSide

/-- Handing the reply over keeps the receive side. -/
theorem keepsInput_handOver : KeepsInput (handOver : PgM σ Unit) := by
  have hclose : ∀ publish, KeepsInput (closeSocketFile publish : PgM σ Unit) := by
    intro publish
    refine performs_bind performs_get fun s => ?_
    cases s.comm.socketFile with
    | none => exact performs_throw _
    | some content =>
        refine performs_bind (keepsInput_modify fun _ => rfl) fun _ => performs_ite ?_ (performs_pure _)
        exact performs_bind (keepsInput_modify fun _ => rfl) fun _ => keepsInput_modify fun _ => rfl
  have hlast : KeepsInput (modify fun s => { s with comm := { s.comm with socketData := 0 } } : PgM σ Unit) :=
    keepsInput_modify fun _ => rfl
  have hrest : KeepsInput (do
      if (← get).comm.socketFile.isSome then closeSocketFile (← get).comm.sockfiles
      modify fun s => { s with comm := { s.comm with socketData := 0 } } : PgM σ Unit) := by
    refine performs_bind performs_get fun s => ?_
    split
    · exact performs_bind performs_get fun s => performs_bind (hclose _) fun _ => hlast
    · exact hlast
  refine performs_bind performs_get fun s => ?_
  split
  · refine performs_bind performs_get fun s => ?_
    split
    · exact performs_bind (keepsInput_modify fun _ => rfl) fun _ => hrest
    · exact performs_bind (keepsInput_modify fun _ => rfl) fun _ => hrest
  · refine performs_bind (keepsInput_modify fun _ => rfl) fun _ => performs_bind performs_get fun s => ?_
    exact performs_ite (hclose true) (performs_pure _)

/-- An error is not cleared in the middle of a message. -/
theorem clearError_notReading (s : State σ) :
    wp (clearError B) (fun _ _ => s.comm.pqCommReadingMsg = false) (fun _ _ => True) s := by
  have hrest : ∀ s' : State σ, s'.comm.pqCommReadingMsg = s.comm.pqCommReadingMsg → wp (do
      if (← get).comm.pqCommReadingMsg then throw (.fatal syncLost)
      if !(← get).ignoreTillSync then
        modify fun s => { s with sendReadyForQuery := true } : PgM σ Unit)
      (fun _ _ => s.comm.pqCommReadingMsg = false) (fun _ _ => True) s' := by
    intro s' hsame
    rw [wp_bind, wp_get]
    rcases Bool.eq_false_or_eq_true s'.comm.pqCommReadingMsg with hreading | hreading
    · rw [if_pos hreading]
      exact trivial
    · rw [if_neg (by simp [hreading])]
      exact wp_mono (wp_true _ s') (fun _ _ _ => hsame.symm.trans hreading) fun _ _ _ => trivial
  rw [clearError, wp_bind]
  refine wp_mono ((keepsInput_of_sends (sends_emitErrorReport B)).recvSide s) ?_ fun _ _ _ => trivial
  intro _ s₁ hside
  have hsame : s₁.comm.pqCommReadingMsg = s.comm.pqCommReadingMsg := (congrArg Comm.pqCommReadingMsg hside :)
  rw [wp_bind, wp_modify, wp_bind, wp_get]
  dsimp only
  split_ifs
  · exact hrest _ hsame
  · exact hrest _ hsame

/-- Behind a whole message the handler goes on with the input, or without any to `wire_flush`. -/
theorem handler_fork (s : State σ) :
    wp (handler b B) (fun l s' => s'.comm.recvSide = s.comm.recvSide ∧ s.comm.pqCommReadingMsg = false ∧
      l = if 0 < s.comm.pqBufferRemainingData then .incoming else .wireFlush) (fun _ _ => True) s := by
  have hlabel : wp (handler b B) (fun l _ => s.comm.pqCommReadingMsg = false ∧
      l = if 0 < s.comm.pqBufferRemainingData then .incoming else .wireFlush) (fun _ _ => True) s := by
    rw [handler, wp_bind, wp_modify, wp_bind]
    refine wp_mono (wp_and (clearError_notReading B _) ((keepsInput_of_sends (sends_clearError B)).spec _)) ?_
      fun _ _ _ => trivial
    rintro _ s₁ ⟨hreading, hsame⟩
    rw [wp_bind, wp_get, hsame]
    split_ifs
    · rw [wp_bind, wp_get]
      split_ifs
      · exact trivial
      · exact ⟨hreading, rfl⟩
    · exact ⟨hreading, rfl⟩
  exact wp_mono (wp_and ((keepsInput_of_sends (sends_handler B)).recvSide s) hlabel) (fun _ _ h => h)
    fun _ _ _ => trivial

/-- Without input the handler leaves for `wire_flush`. -/
theorem handler_empty {s : State σ} (hempty : s.comm.pqBufferRemainingData = 0) :
    wp (handler b B) (fun l s' => l = .wireFlush ∧ s'.comm.pqBufferRemainingData = 0) (fun _ _ => True) s := by
  refine wp_mono (handler_fork B s) ?_ fun _ _ h => h
  rintro l s' ⟨hside, -, rfl⟩
  refine ⟨if_neg (by omega), ?_⟩
  rw [remaining_of_recvSide hside, hempty]

end PgliteBuild
