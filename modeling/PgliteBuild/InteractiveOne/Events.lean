import PgliteBuild.InteractiveOne.Moves

/-! # Which events the code adds to the history

`Adds P` says of two states that the second comes from the first with events of the kind `P` added to the
history, and with the same authentication state and mode; `Still P` says also that the skip flags are the
same. The lemmas of this file classify the functions of `interactive_one` but for `startup_auth` and
`startup_pass`: none of them speaks for the authentication, and only the protocol switch and
`ReadyForQuery` add what an authenticated client waits for. -/

namespace PgliteBuild

open Effect Framing

variable {σ α : Type} (b : Build) (B : Backend σ)

/-! ## Kinds of events -/

/-- A message is dispatched, or a ReadyForQuery is put. -/
def Event.serves : Event → Bool
  | dispatch _ _ | put .ready _ => true
  | _ => false

/-- Bytes of the authentication exchange are put. -/
def Event.ofAuth : Event → Bool
  | put .auth _ => true
  | _ => false

/-- Any event but those of the authentication exchange. -/
def Plain (e : Event) : Prop := e.ofAuth = false

/-- A plain event that serves no message. -/
def Silent (e : Event) : Prop := e.ofAuth = false ∧ e.serves = false

/-- A silent event is plain. -/
theorem Silent.plain {e : Event} (h : Silent e) : Plain e := h.1

/-- Events of the kind `P` are added to the history. -/
structure Adds (P : Event → Prop) (s s' : State σ) : Prop where
  trace : ∃ new, s'.trace = s.trace ++ new ∧ ∀ e ∈ new, P e
  auth : s'.clientAuthInProgress = s.clientAuthInProgress
  wire : s'.isWire = s.isWire
  /-- The end of a session leaves the repl. -/
  repl : s.isRepl = false → s'.isRepl = false
  port : s'.myProcPort = s.myProcPort
  armed : s'.armed = s.armed

/-- Events of the kind `P` are added, and the skip flags are kept. -/
structure Still (P : Event → Prop) (s s' : State σ) : Prop extends Adds P s s' where
  ignore : s'.ignoreTillSync = s.ignoreTillSync
  extended : s'.doingExtendedQueryMessage = s.doingExtendedQueryMessage

/-- `s'` differs from `s` in variables that the authentication does not look at. -/
structure SameAuth (s s' : State σ) : Prop where
  trace : s'.trace = s.trace
  auth : s'.clientAuthInProgress = s.clientAuthInProgress
  wire : s'.isWire = s.isWire
  repl : s'.isRepl = s.isRepl
  port : s'.myProcPort = s.myProcPort
  armed : s'.armed = s.armed

/-- `s'` differs from `s` in variables that neither the authentication nor the skipping looks at. -/
structure SameMode (s s' : State σ) : Prop where
  trace : s'.trace = s.trace
  auth : s'.clientAuthInProgress = s.clientAuthInProgress
  wire : s'.isWire = s.isWire
  repl : s'.isRepl = s.isRepl
  port : s'.myProcPort = s.myProcPort
  armed : s'.armed = s.armed
  ignore : s'.ignoreTillSync = s.ignoreTillSync
  extended : s'.doingExtendedQueryMessage = s.doingExtendedQueryMessage

variable {P Q : Event → Prop}

/-- A state with the same history and authentication adds nothing. -/
theorem SameAuth.adds {s s' : State σ} (h : SameAuth s s') : Adds P s s' :=
  ⟨⟨[], by simp [h.trace], by simp⟩, h.auth, h.wire, fun hrepl => h.repl.trans hrepl, h.port, h.armed⟩

/-- A state with the same history, authentication and skip flags adds nothing and keeps the flags. -/
theorem SameMode.still {s s' : State σ} (h : SameMode s s') : Still P s s' :=
  ⟨SameAuth.adds ⟨h.trace, h.auth, h.wire, h.repl, h.port, h.armed⟩, h.ignore, h.extended⟩

/-- Events of one kind are of every wider kind. -/
theorem Adds.mono {s s' : State σ} (h : Adds P s s') (hPQ : ∀ e, P e → Q e) : Adds Q s s' := by
  obtain ⟨new, htrace, hnew⟩ := h.trace
  exact { h with trace := ⟨new, htrace, fun e he => hPQ e (hnew e he)⟩ }

/-- Nothing is added between a state and itself. -/
theorem Adds.refl (P : Event → Prop) (s : State σ) : Adds P s s := SameAuth.adds (by constructor <;> rfl)

/-- What two stretches add is of the kind that each of them adds. -/
theorem Adds.trans {s s' s'' : State σ} (h : Adds P s s') (h' : Adds P s' s'') : Adds P s s'' := by
  obtain ⟨new, htrace, hnew⟩ := h.trace
  obtain ⟨new', htrace', hnew'⟩ := h'.trace
  refine ⟨⟨new ++ new', ?_, ?_⟩, h'.auth.trans h.auth, h'.wire.trans h.wire,
    fun hrepl => h'.repl (h.repl hrepl),
    h'.port.trans h.port, h'.armed.trans h.armed⟩
  · rw [htrace', htrace, List.append_assoc]
  · intro e he
    rcases List.mem_append.mp he with he | he
    · exact hnew e he
    · exact hnew' e he

/-- Nothing is added between a state and itself, and the flags are the same. -/
theorem Still.refl (P : Event → Prop) (s : State σ) : Still P s s := ⟨Adds.refl P s, rfl, rfl⟩

/-- Two stretches keep the skip flags if each of them does. -/
theorem Still.trans {s s' s'' : State σ} (h : Still P s s') (h' : Still P s' s'') : Still P s s'' :=
  ⟨h.toAdds.trans h'.toAdds, h'.ignore.trans h.ignore, h'.extended.trans h.extended⟩

/-- `m` adds events of the kind `P`. -/
abbrev Adding (P : Event → Prop) (m : PgM σ α) : Prop := Performs (Adds P) m

/-- `m` adds events of the kind `P` and keeps the skip flags. -/
abbrev Keeping (P : Event → Prop) (m : PgM σ α) : Prop := Performs (Still P) m

/-- Code that keeps the skip flags adds what it adds. -/
theorem Keeping.adding {m : PgM σ α} (h : Keeping P m) : Adding P m := h.mono fun _ _ => Still.toAdds

/-- Code that adds events of one kind adds events of every wider kind. -/
theorem Adding.mono {m : PgM σ α} (h : Adding P m) (hPQ : ∀ e, P e → Q e) : Adding Q m :=
  Performs.mono h fun _ _ hadds => hadds.mono hPQ

/-- Code that adds events of one kind and keeps the skip flags does so for every wider kind. -/
theorem Keeping.mono {m : PgM σ α} (h : Keeping P m) (hPQ : ∀ e, P e → Q e) : Keeping Q m :=
  Performs.mono h fun _ _ hstill => { hstill with toAdds := hstill.toAdds.mono hPQ }

/-- The steps of a computation make one. -/
theorem Adding.spec {m : PgM σ α} (h : Adding P m) (s : State σ) :
    wp m (fun _ => Adds P s) (fun _ => Adds P s) s :=
  h.keeps (fun _ _ hs hstep => hs.trans hstep) (Adds.refl P s)

/-- The steps of a computation that keeps the skip flags make one such step. -/
theorem Keeping.spec {m : PgM σ α} (h : Keeping P m) (s : State σ) :
    wp m (fun _ => Still P s) (fun _ => Still P s) s :=
  h.keeps (fun _ _ hs hstep => hs.trans hstep) (Still.refl P s)

/-! ## Control variables and events -/

/-- An assignment to other variables adds nothing and keeps the skip flags. -/
theorem keeping_modify {f : State σ → State σ} (hf : ∀ s, SameMode s (f s)) :
    Keeping P (modify f : PgM σ Unit) := performs_modify fun s => (hf s).still

/-- An assignment that leaves the history and the authentication alone adds nothing. -/
theorem adding_modify {f : State σ → State σ} (hf : ∀ s, SameAuth s (f s)) :
    Adding P (modify f : PgM σ Unit) := performs_modify fun s => (hf s).adds

/-- Noting an event of the kind `P` adds it. -/
theorem keeping_record {e : Event} (he : P e) : Keeping P (record e : PgM σ Unit) := by
  refine performs_modify fun s => ⟨⟨⟨[e], rfl, ?_⟩, rfl, rfl, id, rfl, rfl⟩, rfl, rfl⟩
  intro e' he'
  rwa [List.mem_singleton.mp he']

/-- Raising an error adds no event. -/
theorem keeping_ereport (errcode : Errcode) (errmsg : String) :
    Keeping P (ereport errcode errmsg : PgM σ α) :=
  performs_bind (keeping_modify fun _ => by constructor <;> rfl) fun _ => performs_throw _

/-- The connection does not matter here. -/
theorem keeping_liftComm (m : CommM α) : Keeping P (liftComm m : PgM σ α) := by
  intro s
  have hsame : ∀ c, Still P s { s with comm := c } := fun c => SameMode.still (by constructor <;> rfl)
  rw [wp_liftComm]
  exact wp_mono (wp_true m s.comm) (fun _ c _ => .single (hsame c)) fun _ c _ => .single (hsame c)

/-- A read that returns adds no event. -/
theorem keeping_liftRecv (f : Comm → α × Comm) : Keeping P (liftRecv f : PgM σ α) := fun _ =>
  .single (SameMode.still (by constructor <;> rfl))

/-! ## Putting bytes and reading -/

/-- The reading of a COPY message adds no event. -/
theorem keeping_copyRead : Keeping P (copyRead b : PgM σ Unit) := by
  refine performs_bind (keeping_liftComm _) fun _ => performs_bind (keeping_liftRecv _) fun x => ?_
  cases x with
  | none => exact keeping_ereport _ _
  | some t =>
      dsimp only
      cases (FrontendMsg.ofCode t).filter FrontendMsg.inCopy with
      | none => exact keeping_ereport _ _
      | some m =>
          refine performs_bind (keeping_liftRecv _) fun body => ?_
          cases body with
          | none => exact keeping_ereport _ _
          | some body => exact performs_pure _

/-- `discard_input` adds no event. -/
theorem keeping_discardInput : Keeping P (discardInput b : PgM σ Unit) := by
  have hbytes : ∀ n, Keeping P (discardBytes b n : PgM σ Unit) := by
    intro n
    induction n with
    | zero => exact performs_pure _
    | succ n ih => exact performs_bind (keeping_liftRecv _) fun _ => ih
  refine performs_bind performs_get fun s => performs_ite (performs_pure _) ?_
  refine performs_bind (keeping_liftComm _) fun _ => performs_bind performs_get fun s => ?_
  exact performs_bind (hbytes _) fun _ => keeping_liftComm _

/-- `recv_password_packet` adds no event. -/
theorem keeping_recvPasswordPacket :
    Keeping P (recvPasswordPacket b : PgM σ (Option (List UInt8))) := by
  refine performs_bind (keeping_liftComm _) fun _ => performs_bind (keeping_liftRecv _) fun x => ?_
  cases x with
  | none => exact performs_pure _
  | some t =>
      refine performs_ite (keeping_ereport _ _) (performs_bind (keeping_liftRecv _) fun body => ?_)
      cases body with
      | none => exact performs_pure _
      | some body =>
          exact performs_ite (keeping_ereport _ _) (performs_ite (keeping_ereport _ _) (performs_pure _))

section Puts

variable {source : Source} (hput : ∀ bytes, P (.put source bytes))

include hput

/-- A protocol message adds the bytes that are put. -/
theorem keeping_putmessage (msgtype : UInt8) (body : List UInt8) :
    Keeping P (putmessage source msgtype body : PgM σ Unit) :=
  performs_bind (keeping_liftComm _) fun _ => keeping_record (hput _)

/-- A row of protocol messages adds the bytes of each. -/
theorem keeping_putmessages (msgtype : UInt8) (bodies : List (List UInt8)) :
    Keeping P (putmessages source msgtype bodies : PgM σ Unit) := by
  induction bodies with
  | nil => exact performs_pure _
  | cons body bodies ih => exact performs_bind (keeping_putmessage hput _ _) fun _ => ih

/-- The actions of a handler add the bytes that they put. -/
theorem keeping_runActions (as : List Action) : Keeping P (runActions b source as : PgM σ Unit) := by
  induction as with
  | nil => exact performs_pure _
  | cons a as ih =>
      refine performs_bind ?_ fun _ => ih
      cases a with
      | putbytes bytes => exact performs_bind (keeping_liftComm _) fun _ => keeping_record (hput bytes)
      | flush =>
          show Keeping P (liftComm internalFlush : PgM σ Unit)
          exact keeping_liftComm _
      | copyRead => exact keeping_copyRead b

/-- A response of the backend adds the bytes that its actions put. -/
theorem keeping_respond (r : Response σ) : Keeping P (respond b source r) := by
  refine performs_respond_settle (keeping_runActions b hput _) (performs_settle ?_ ?_)
  · exact fun _ => SameMode.still (by constructor <;> rfl)
  · exact fun e => keeping_ereport e.errcode e.errmsg

end Puts

/-! ## Reports -/

/-- Bytes that are put neither by the authentication nor by ReadyForQuery are silent. -/
theorem silent_put {source : Source} (hauth : source ≠ .auth) (hready : source ≠ .ready)
    (bytes : List UInt8) : Silent (.put source bytes) := by
  cases source with
  | message | error | notification => exact ⟨rfl, rfl⟩
  | ready => exact absurd rfl hready
  | auth => exact absurd rfl hauth

/-- Bytes that are not put by the authentication are plain. -/
theorem plain_put {source : Source} (hauth : source ≠ .auth) (bytes : List UInt8) :
    Plain (.put source bytes) := by
  cases source with
  | message | error | notification | ready => rfl
  | auth => exact absurd rfl hauth

/-- `ProcessNotifyInterrupt` adds its note and the bytes of notifications. -/
theorem keeping_processNotifyInterrupt (hraising : P (.raising .processNotifyInterrupt))
    (hput : ∀ bytes, P (.put .notification bytes)) : Keeping P (processNotifyInterrupt b B) := by
  refine performs_bind (keeping_record hraising) fun _ => performs_bind performs_get fun s => ?_
  refine performs_ite ?_ (performs_pure _)
  refine performs_bind (keeping_modify fun _ => by constructor <;> rfl) fun _ => ?_
  exact performs_bind performs_get fun s => keeping_respond b hput _

/-- `ReadyForQuery` adds its note and its message. -/
theorem keeping_readyForQuery (hraising : P (.raising .readyForQuery))
    (hput : ∀ bytes, P (.put .ready bytes)) (dest : CommandDest) : Keeping P (readyForQuery B dest) := by
  refine performs_bind (keeping_record hraising) fun _ => performs_ite ?_ (performs_pure _)
  refine performs_bind performs_get fun s => ?_
  exact performs_bind (keeping_putmessage hput _ _) fun _ => keeping_liftComm _

section Errors

variable (hput : ∀ bytes, P (.put .error bytes))

include hput

/-- `EmitErrorReport` adds the bytes of the error. -/
theorem keeping_emitErrorReport : Keeping P (emitErrorReport B) := by
  refine performs_bind performs_get fun s => ?_
  cases s.errordata with
  | none => exact performs_pure _
  | some e =>
      have hclear : Keeping P (modify fun s => { s with errordata := none } : PgM σ Unit) :=
        keeping_modify fun _ => by constructor <;> rfl
      refine performs_bind performs_get fun s => ?_
      dsimp only
      split
      · exact performs_bind (keeping_putmessage hput _ _) fun _ =>
          performs_bind (keeping_liftComm _) fun _ => hclear
      · exact hclear

/-- The error handler reports the error and may begin to skip. -/
theorem adding_handler : Adding P (handler b B) :=
  performs_handler B (keeping_emitErrorReport B hput).adding (fun _ => SameAuth.adds (by constructor <;> rfl))
    (fun _ => SameAuth.adds (by constructor <;> rfl)) (fun _ => SameAuth.adds (by constructor <;> rfl))
    (fun _ => SameAuth.adds (by constructor <;> rfl)) fun _ => SameAuth.adds (by constructor <;> rfl)

end Errors

/-! ## Messages -/

/-- `SocketBackend` serves no message, and it does not speak for the authentication. -/
theorem adding_socketBackend : Adding Silent (socketBackend b B) := by
  refine performs_bind (keeping_record ⟨rfl, rfl⟩).adding fun _ => ?_
  refine performs_bind (keeping_liftComm _).adding fun _ => ?_
  refine performs_bind (keeping_liftRecv _).adding fun x => ?_
  cases x with
  | none =>
      refine performs_bind performs_get fun s => ?_
      dsimp only
      split
      · exact performs_bind (adding_modify fun _ => by constructor <;> rfl) fun _ => performs_pure _
      · exact performs_pure _
  | some t =>
      dsimp only
      cases FrontendMsg.ofCode t with
      | none => exact performs_throw _
      | some m =>
          refine performs_bind (adding_modify fun _ => by constructor <;> rfl) fun _ => ?_
          refine performs_bind (keeping_liftRecv _).adding fun body => ?_
          cases body with
          | none => exact performs_pure _
          | some body =>
              exact performs_bind (adding_modify fun _ => by constructor <;> rfl) fun _ =>
                performs_pure _

/-- The message that `SocketBackend` hands over, if the input begins with a complete known one. -/
def Comm.nextMessage (b : Build) (c : Comm) : Option FrontendMsg :=
  if c.pqCommReadingMsg then none
  else
    match pqGetbyte b (c.startmsgread b) with
    | (none, _) => none
    | (some t, c') => (FrontendMsg.ofCode t).bind fun m => (pqGetmessage b m.maxlen c').1.map fun _ => m

/-- `SocketBackend` hands over no other message, and sets the skip flags for it. -/
theorem socketBackend_nextMessage (s : State σ) :
    wp (socketBackend b B) (fun r s' => ∀ m, r = some m → s.comm.nextMessage b = some m ∧
      s'.ignoreTillSync = (s.ignoreTillSync && !m.endsSkip) ∧
        s'.doingExtendedQueryMessage = m.extended) (fun e _ => e ≠ .error) s := by
  rw [socketBackend, wp_bind, wp_record, wp_bind, wp_liftComm]
  rcases Bool.eq_false_or_eq_true s.comm.pqCommReadingMsg with hreading | hreading
  · rw [wp_of_error (pqStartmsgread_reading hreading)]
    simp
  rw [wp_of_ok (pqStartmsgread_eq hreading), wp_bind, wp_liftRecv, Comm.nextMessage,
    if_neg (by simp [hreading])]
  generalize pqGetbyte b (s.comm.startmsgread b) = r
  obtain ⟨_ | t, c⟩ := r
  · rw [wp_bind, wp_get]
    split_ifs
    · rintro m ⟨⟩
    · rintro m ⟨⟩
  dsimp only
  cases FrontendMsg.ofCode t with
  | none => simp
  | some m =>
      rw [wp_bind, wp_modify, wp_bind, wp_liftRecv]
      dsimp only [Option.bind_some]
      generalize pqGetmessage b m.maxlen c = r
      obtain ⟨_ | body, c'⟩ := r
      · rintro m' ⟨⟩
      · rintro m' ⟨⟩
        exact ⟨rfl, rfl, rfl⟩

/-- The end of a session adds no event. -/
theorem adding_closeConnection : Adding P (closeConnection : PgM σ Unit) :=
  performs_modify fun _ => ⟨⟨[], by simp, by simp⟩, rfl, rfl, fun _ => rfl, rfl, rfl⟩

/-- Leaving ReadyForQuery for later adds no event. -/
theorem keeping_deferReadyForQuery : Keeping P (deferReadyForQuery : PgM σ Unit) :=
  keeping_modify fun _ => by constructor <;> rfl

/-- The switch notes the message and handles it; only the end of the session touches the skip flags. -/
theorem protoSwitch_some (hput : ∀ bytes, P (.put .message bytes)) {m : FrontendMsg} (hm : m ≠ .terminate) :
    ∃ rest : State σ → PgM σ Bool, (∀ s, Keeping P (rest s)) ∧ protoSwitch b B (some m) = (do
      record (.raising .messageSwitch)
      let s ← get
      record (.dispatch m s.inBuf)
      rest s) := by
  refine ⟨_, fun s => ?_, rfl⟩
  cases m with
  | query | functionCall | sync | parse =>
      exact performs_bind (keeping_respond b hput _) fun _ =>
        performs_bind (keeping_modify fun _ => by constructor <;> rfl) fun _ => performs_pure _
  | bind | execute | describe =>
      exact performs_bind (keeping_respond b hput _) fun _ =>
        performs_bind keeping_deferReadyForQuery fun _ => performs_pure _
  | close =>
      have hrest : Keeping P (do
          deferReadyForQuery
          pure false : PgM σ Bool) :=
        performs_bind keeping_deferReadyForQuery fun _ => performs_pure _
      refine performs_bind (keeping_respond b hput _) fun _ => performs_bind performs_get fun s => ?_
      dsimp only
      split
      · exact performs_bind (keeping_putmessage hput _ _) fun _ => hrest
      · exact hrest
  | flush =>
      refine performs_ite (keeping_ereport _ _) ?_
      dsimp only
      split
      · exact performs_bind (keeping_liftComm _) fun _ => performs_pure _
      · exact performs_pure _
  | terminate => exact absurd rfl hm
  | copyData | copyDone | copyFail => exact performs_pure _

/-- The message switch does not speak for the authentication. -/
theorem adding_protoSwitch (firstchar : Option FrontendMsg) :
    Adding Plain (protoSwitch b B firstchar) := by
  have hraising : Plain (.raising .messageSwitch) := rfl
  have hdispatch : ∀ m body, Plain (.dispatch m body) := fun _ _ => rfl
  cases firstchar with
  | none =>
      exact performs_bind (keeping_record hraising).adding fun _ => performs_bind performs_get fun _ =>
        performs_bind adding_closeConnection fun _ => performs_pure _
  | some m =>
      by_cases hm : m = .terminate
      · subst hm
        exact performs_bind (keeping_record hraising).adding fun _ => performs_bind performs_get fun _ =>
          performs_bind (keeping_record (hdispatch _ _)).adding fun _ =>
            performs_bind adding_closeConnection fun _ => performs_pure _
      · obtain ⟨rest, hrest, hswitch⟩ := protoSwitch_some b B (P := Plain) (fun _ => rfl) hm
        rw [hswitch]
        exact performs_bind (keeping_record hraising).adding fun _ => performs_bind performs_get fun s =>
          performs_bind (keeping_record (hdispatch _ _)).adding fun _ => (hrest s).adding

/-- The end of a round does not speak for the authentication, and it keeps the skip flags. -/
theorem keeping_betweenMessages : Keeping Plain (betweenMessages B) := by
  have hmodify : ∀ f : State σ → Bool, Keeping Plain
      (modify fun s => { s with pipelining := f s } : PgM σ Unit) := fun f =>
    keeping_modify fun _ => by constructor <;> rfl
  refine performs_bind performs_get fun s => performs_ite ?_ (performs_pure _)
  refine performs_bind (hmodify _) fun _ => performs_bind performs_get fun s => ?_
  refine performs_bind performs_get fun s' => performs_ite ?_ (performs_pure _)
  refine performs_bind performs_get fun s => ?_
  refine performs_bind (keeping_readyForQuery B (P := Plain) rfl (fun _ => rfl) _) fun _ => ?_
  exact keeping_modify fun _ => by constructor <;> rfl

/-! ## A round of the loop -/

/-- The state behind the first lines of a round. -/
def State.round (s : State σ) : State σ :=
  if s.isRepl then { s with pipelining := false, whereToSendOutput := .debug } else s

/-- Acting on what `SocketBackend` handed over. -/
def actOn (firstchar : Option FrontendMsg) : PgM σ Label := do
  if (← get).ignoreTillSync && firstchar.any (· ≠ .sync) then pure .loop
  else if ← protoSwitch b B firstchar then pure .wireFlush
  else
    betweenMessages B
    pure .loop

/-- A round goes by the first byte of the packet. -/
theorem loopRound_eq (s : State σ) :
    loopRound b B s = (if s.isWire && s.peek = some 0 then do
        startupAuth b
        pure .resumeOnError
      else if s.isWire && s.peek = some 112 then do
        startupPass b B true
        pure .resumeOnError
      else do
        let firstchar ← nextMessage b B
        actOn b B firstchar : PgM σ Label) s.round := by
  have hrest : ∀ s : State σ, (do
      if (← get).isWire && (← get).peek = some 0 then
        startupAuth b
        pure .resumeOnError
      else if (← get).isWire && (← get).peek = some 112 then
        startupPass b B true
        pure .resumeOnError
      else
        let firstchar ← nextMessage b B
        actOn b B firstchar : PgM σ Label) s =
      (if s.isWire && s.peek = some 0 then do
        startupAuth b
        pure .resumeOnError
      else if s.isWire && s.peek = some 112 then do
        startupPass b B true
        pure .resumeOnError
      else do
        let firstchar ← nextMessage b B
        actOn b B firstchar : PgM σ Label) s := by
    intro s
    rw [run_bind_ok (run_get _), run_bind_ok (run_get _)]
    by_cases hzero : (s.isWire && s.peek = some 0) = true
    · rw [if_pos hzero, if_pos hzero]
    · rw [if_neg hzero, if_neg hzero, run_bind_ok (run_get _), run_bind_ok (run_get _)]
  have hwire : s.round.isWire = s.isWire := by
    unfold State.round
    split_ifs <;> rfl
  have hpeek : s.round.peek = s.peek := by
    unfold State.round
    split_ifs <;> rfl
  rw [← hwire, ← hpeek, ← hrest, loopRound, run_bind_ok (run_get _), State.round]
  split_ifs
  · rfl
  · rfl

/-! ## The end of the reply -/

/-- The end of the reply raises no error but those noted, and puts nothing of the authentication. -/
theorem keeping_finishReply (hraising : ∀ op, P (.raising op))
    (hput : ∀ source bytes, source ≠ .auth → P (.put source bytes)) : Keeping P (finishReply b B) := by
  have hlast : Keeping P (lastReadyForQuery B) := by
    refine performs_bind performs_get fun s => performs_ite ?_ (performs_pure _)
    have hready : ∀ bytes, P (.put .ready bytes) := fun bytes => hput .ready bytes (by simp)
    refine performs_bind (keeping_readyForQuery B (hraising _) hready _) fun _ => ?_
    exact keeping_modify fun _ => by constructor <;> rfl
  have hnotify : Keeping P (processNotifyInterrupt b B) :=
    keeping_processNotifyInterrupt b B (hraising _) fun bytes => hput .notification bytes (by simp)
  refine performs_bind performs_get fun s => performs_ite ?_ (performs_pure _)
  refine performs_bind performs_get fun s => ?_
  dsimp only
  split
  · exact performs_bind hnotify fun _ => hlast
  · exact hlast

/-- The way in serves no message, and it keeps the skip flags. -/
theorem keeping_prologue : Keeping Silent (prologue b B) := by
  have hrest : Keeping Silent (modify fun s => { s with sendReadyForQuery := false } : PgM σ Unit) :=
    keeping_modify fun _ => by constructor <;> rfl
  refine performs_bind performs_get fun s => performs_ite ?_ (performs_pure _)
  refine performs_bind performs_get fun s => performs_bind performs_get fun s' => ?_
  dsimp only
  split
  · exact performs_bind (keeping_processNotifyInterrupt b B ⟨rfl, rfl⟩ (silent_put (by simp) (by simp)))
      fun _ => hrest
  · exact hrest

/-- Closing the socket file adds a rename at most. -/
theorem keeping_closeSocketFile (hrename : P .rename) (publish : Bool) :
    Keeping P (closeSocketFile publish : PgM σ Unit) := by
  refine performs_bind performs_get fun s => ?_
  cases s.comm.socketFile with
  | none => exact performs_throw _
  | some content =>
      refine performs_bind (keeping_modify fun _ => by constructor <;> rfl) fun _ => ?_
      refine performs_ite ?_ (performs_pure _)
      exact performs_bind (keeping_modify fun _ => by constructor <;> rfl) fun _ =>
        keeping_record hrename

/-- Handing the reply over adds a rename at most. -/
theorem keeping_handOver (hrename : P .rename) : Keeping P (handOver : PgM σ Unit) := by
  have hlast : Keeping P (modify fun s =>
      { s with comm := { s.comm with socketData := 0 } } : PgM σ Unit) :=
    keeping_modify fun _ => by constructor <;> rfl
  have hclose : Keeping P (do
      if (← get).comm.socketFile.isSome then closeSocketFile (← get).comm.sockfiles
      modify fun s => { s with comm := { s.comm with socketData := 0 } } : PgM σ Unit) := by
    refine performs_bind performs_get fun s => ?_
    split
    · exact performs_bind performs_get fun s =>
        performs_bind (keeping_closeSocketFile hrename _) fun _ => hlast
    · exact hlast
  refine performs_bind performs_get fun s => ?_
  split
  · refine performs_bind performs_get fun s => ?_
    split
    · exact performs_bind (keeping_modify fun _ => by constructor <;> rfl) fun _ => hclose
    · exact performs_bind (keeping_modify fun _ => by constructor <;> rfl) fun _ => hclose
  · refine performs_bind (keeping_modify fun _ => by constructor <;> rfl) fun _ => ?_
    exact performs_bind performs_get fun s =>
      performs_ite (keeping_closeSocketFile hrename true) (performs_pure _)

end PgliteBuild
