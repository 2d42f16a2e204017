import PgliteBuild.InteractiveOne.Entry
import PgliteBuild.InteractiveOne.Moves
import PgliteBuild.Session.Reading

/-! # The code follows the session

`State.session` forgets everything but the session of a state. Each function of the loop then has one
spec: from a state whose connection holds complete messages, it ends in a state whose session is the
one that `Session.play` computes, with the rest of the packet unread. -/

namespace PgliteBuild

open Effect Framing Jumps

/-- What the client and the protocol switch see of an activation. -/
def Event.visible : Event → Bool
  | dispatch _ _ | put _ _ => true
  | sigsetjmp | raising _ | wireFlush | rename | prompt => false

variable {σ : Type} {b : Build} {B : Backend σ} {t : Transport} {n : ℕ} {u rest : List UInt8}

/-- The session of a state. -/
def State.session (s : State σ) : Session σ where
  db := s.db
  sendReadyForQuery := s.sendReadyForQuery
  ignoreTillSync := s.ignoreTillSync
  notifyInterruptPending := s.notifyInterruptPending
  canaryEx := s.canaryEx
  remote := decide (s.whereToSendOutput = .remote)
  out := s.trace.filter Event.visible

/-- The locals and globals that decide how the loop goes on. -/
structure Locals where
  /-- `ClientAuthInProgress`. -/
  auth : Bool
  peek : Option UInt8
  /-- `doing_extended_query_message`. -/
  extended : Bool
  /-- `pipelining`. -/
  pipelining : Bool

/-- Only the last two change from message to message. -/
def Locals.update (l : Locals) (extended pipelining : Bool) : Locals :=
  { l with extended := extended, pipelining := pipelining }

/-- Behind the handshake, with a packet that does not start with a 0 byte or a `p`. -/
structure Locals.Serving (l : Locals) : Prop where
  auth : l.auth = false
  peek : l.peek ≠ some 0 ∧ l.peek ≠ some 112

/-- A wire-mode activation. -/
def Steady (b : Build) (l : Locals) (s : State σ) : Prop :=
  s.isWire = true ∧ s.isRepl = false ∧ s.clientAuthInProgress = l.auth ∧ s.myProcPort = true ∧
    s.peek = l.peek ∧ s.armed = b.sigsetjmp ∧
    s.doingExtendedQueryMessage = l.extended ∧ s.pipelining = l.pipelining

/-- The state has session `S`, and `u` of its packet is unread. -/
structure Follows (b : Build) (t : Transport) (n : ℕ) (u : List UInt8) (l : Locals) (S : Session σ)
    (s : State σ) : Prop where
  session : s.session = S
  input : Midway b t n u s.comm
  steady : Steady b l s

variable {l : Locals} {S : Session σ} {s : State σ}

/-- While the session puts on the connection, the code sends to the client. -/
theorem Follows.remote (h : Follows b t n u l S s) (hremote : S.remote = true) :
    s.whereToSendOutput = .remote := by
  have hsession := congrArg Session.remote h.session
  exact of_decide_eq_true (hsession.trans hremote)

/-! ## Sending -/

/-- Putting bytes on the connection and noting it. -/
theorem Follows.put (h : Follows b t n u l S s) (source : Source) (ops : List SendOp)
    (bytes : List UInt8) :
    Follows b t n u l { S with out := S.out ++ [.put source bytes] }
      { s with comm := ops.foldl Comm.send s.comm, trace := s.trace ++ [.put source bytes] } := by
  refine ⟨?_, h.input.sends ops, h.steady⟩
  rw [← h.session]
  simp [State.session, Event.visible]

/-- A flush is not seen by the session. -/
theorem Follows.flush (h : Follows b t n u l S s) :
    Follows b t n u l S { s with comm := s.comm.send .flush } :=
  ⟨h.session, h.input.send .flush, h.steady⟩

/-- Events that are not visible are not seen by the session. -/
theorem Follows.note (h : Follows b t n u l S s) {e : Event} (he : e.visible = false) :
    Follows b t n u l S { s with trace := s.trace ++ [e] } := by
  refine ⟨?_, h.input, h.steady⟩
  rw [← h.session]
  simp [State.session, he]

/-- What follows a message that is put: only the connection and the history have moved. -/
theorem putmessage_spec (h : Follows b t n u l S s) (source : Source) (msgtype : UInt8)
    (body : List UInt8) {post : Unit → State σ → Prop} {exn : Stop → State σ → Prop}
    (hpost : ∀ s', s' = { s with comm := s'.comm, trace := s'.trace } →
      Follows b t n u l { S with out := S.out ++ [.put source (msgtype :: encodeBody body)] } s' →
      post () s') :
    wp (putmessage source msgtype body) post exn s := by
  rw [putmessage, wp_bind, wp_liftComm, wp_of_ok (pqPutmessage_eq h.input.file msgtype body), wp_record]
  exact hpost _ rfl (h.put source _ _)

/-- What follows a flush: only the connection and the history have moved. -/
theorem internalFlush_spec (h : Follows b t n u l S s) {post : Unit → State σ → Prop}
    {exn : Stop → State σ → Prop}
    (hpost : ∀ s', s' = { s with comm := s'.comm, trace := s'.trace } →
      Follows b t n u l S s' → post () s') :
    wp (liftComm internalFlush) post exn s := by
  rw [wp_liftComm]
  exact hpost _ rfl h.flush

/-- What follows `ReadyForQuery`: the session has put one more message. -/
theorem readyForQuery_spec (h : Follows b t n u l S s) {post : Unit → State σ → Prop}
    {exn : Stop → State σ → Prop}
    (hpost : ∀ s', Follows b t n u l { S with out := S.out ++ [B.readyPut S.db] } s' → post () s') :
    wp (readyForQuery B .remote) post exn s := by
  have hnote := h.note (e := .raising .readyForQuery) rfl
  have hdb : s.db = S.db := congrArg Session.db h.session
  rw [readyForQuery, wp_bind, wp_record, if_pos rfl, wp_bind, wp_get, wp_bind]
  refine putmessage_spec hnote _ _ _ fun s₁ _ h₁ => ?_
  refine internalFlush_spec h₁ fun s₂ _ h₂ => hpost s₂ ?_
  rw [← hdb] at h₂ ⊢
  exact h₂

/-! ## Handlers -/

/-- A copy reader finds the next COPY message. -/
theorem copyRead_spec {m : Msg} (hcopy : m.kind.inCopy = true)
    (h : Follows b t n (m.encode ++ rest) l S s) {post : Unit → State σ → Prop}
    {exn : Stop → State σ → Prop}
    (hpost : ∀ s', s' = { s with comm := s'.comm, trace := s'.trace } →
      Follows b t n rest l S s' → post () s') :
    wp (copyRead b) post exn s := by
  have hne : m.encode ++ rest ≠ [] := by simp [Msg.encode]
  obtain ⟨hbyte, hbody, hmid⟩ := (h.input.offers hne).readMessage
  rw [copyRead, wp_bind, wp_liftComm, wp_of_ok (pqStartmsgread_eq h.input.notReading), wp_bind,
    wp_liftRecv]
  simp only [hbyte, FrontendMsg.ofCode_code, Option.filter, hcopy, if_true]
  rw [wp_bind, wp_liftRecv]
  simp only [hbody]
  exact hpost _ rfl ⟨h.session, hmid, h.steady⟩

/-- The actions of a handler: it reads the COPY messages that are there, and puts its bytes. -/
theorem runActions_spec (source : Source) (as : List Action) (ms : List Msg)
    (hcopy : ∀ m ∈ ms, m.kind.inCopy = true) (hcount : as.count .copyRead = ms.length)
    (h : Follows b t n (encodeMsgs ms ++ rest) l S s) {post : Unit → State σ → Prop}
    {exn : Stop → State σ → Prop}
    (hpost : ∀ s', s' = { s with comm := s'.comm, trace := s'.trace } →
      Follows b t n rest l { S with out := S.out ++ as.filterMap fun
        | .putbytes bytes => some (.put source bytes)
        | .flush | .copyRead => none } s' → post () s') :
    wp (runActions b source as) post exn s := by
  induction as generalizing ms S s with
  | nil =>
      have hnil : ms = [] := by simpa using hcount.symm
      subst hnil
      refine hpost s rfl ?_
      rw [List.filterMap_nil, List.append_nil]
      exact h
  | cons a as ih =>
      rw [runActions, wp_bind]
      cases a with
      | putbytes bytes =>
          rw [runAction, wp_bind, wp_liftComm, wp_of_ok (internalPutbytes_eq h.input.file bytes),
            wp_record]
          refine ih ms hcopy (by simpa using hcount) (h.put source [.putbytes bytes] bytes) ?_
          intro s' hsame h'
          refine hpost s' (by rw [hsame]) ?_
          rw [List.append_assoc] at h'
          exact h'
      | flush =>
          rw [runAction]
          refine internalFlush_spec h fun s₁ hsame₁ h₁ => ?_
          refine ih ms hcopy (by simpa using hcount) h₁ fun s' hsame h' => ?_
          exact hpost s' (by rw [hsame, hsame₁]) h'
      | copyRead =>
          rw [runAction]
          cases ms with
          | nil => simp at hcount
          | cons m ms =>
              have hfirst : Follows b t n (m.encode ++ (encodeMsgs ms ++ rest)) l S s := by
                rw [← List.append_assoc]
                exact h
              refine copyRead_spec (hcopy m (by simp)) hfirst fun s₁ hsame₁ h₁ => ?_
              have hrest : ∀ m ∈ ms, m.kind.inCopy = true := fun m hm => hcopy m (by simp [hm])
              refine ih ms hrest (by simpa using hcount) h₁ fun s' hsame h' => ?_
              exact hpost s' (by rw [hsame, hsame₁]) h'

/-- A handler's response, up to the point where it may raise its error. -/
theorem respond_spec (source : Source) (r : Response σ) (ms : List Msg)
    (hcopy : ∀ m ∈ ms, m.kind.inCopy = true) (hcount : r.reads = ms.length)
    (h : Follows b t n (encodeMsgs ms ++ rest) l S s) (hremote : S.remote = true)
    {post : Unit → State σ → Prop} {exn : Stop → State σ → Prop}
    (hend : ∀ s', Follows b t n rest l { S with
        db := r.next
        notifyInterruptPending := S.notifyInterruptPending || r.notify
        out := S.out ++ r.puts source } s' →
      (r.error = none → post () s') ∧
        ∀ e, r.error = some e → s'.errordata = some e → exn .error s') :
    wp (respond b source r) post exn s := by
  rw [respond, wp_bind, wp_get, if_pos (h.remote hremote), wp_bind]
  refine runActions_spec source r.actions ms hcopy hcount h fun s₁ hsame h₁ => ?_
  have hnotify : s₁.notifyInterruptPending = S.notifyInterruptPending :=
    congrArg Session.notifyInterruptPending h₁.session
  rw [wp_bind, wp_modify]
  obtain ⟨hok, herr⟩ := hend { s₁ with
      db := r.next
      notifyInterruptPending := s₁.notifyInterruptPending || r.notify
      errordata := r.error.elim s₁.errordata some } (by
    refine ⟨?_, h₁.input, h₁.steady⟩
    rw [hnotify]
    exact congrArg (fun S' : Session σ => { S' with
      db := r.next
      notifyInterruptPending := S.notifyInterruptPending || r.notify }) h₁.session)
  cases herror : r.error with
  | none =>
      rw [herror] at hok
      exact hok rfl
  | some e =>
      rw [herror] at herr
      exact herr e rfl rfl

/-- `EmitErrorReport` and `FlushErrorState` for an error that waits in the error stack. -/
theorem emitErrorReport_spec (h : Follows b t n u l S s) {e : ErrorReport} (he : s.errordata = some e)
    (hremote : S.remote = true) {post : Unit → State σ → Prop} {exn : Stop → State σ → Prop}
    (hpost : ∀ s', Follows b t n u l
      { S with out := S.out ++ [.put .error (69 :: encodeBody (B.errorBody e))] } s' → post () s') :
    wp (emitErrorReport B) post exn s := by
  rw [emitErrorReport, wp_bind, wp_get]
  simp only [he]
  rw [wp_bind, wp_get, if_pos (h.remote hremote), wp_bind]
  refine putmessage_spec h _ _ _ fun s₁ _ h₁ => ?_
  rw [wp_bind]
  refine internalFlush_spec h₁ fun s₂ _ h₂ => ?_
  rw [wp_modify]
  exact hpost _ ⟨h₂.session, h₂.input, h₂.steady⟩

/-- `clear_error` for an error that waits in the error stack. -/
theorem clearError_spec (h : Follows b t n u l S s) {e : ErrorReport} (he : s.errordata = some e)
    (hremote : S.remote = true) {m : Msg} (hkind : l.extended = m.kind.extended)
    {post : Unit → State σ → Prop} {exn : Stop → State σ → Prop}
    (hpost : ∀ s', Follows b t n u l (S.cleared B m e) s' → post () s') :
    wp (clearError B) post exn s := by
  rw [clearError, wp_bind]
  refine emitErrorReport_spec h he hremote fun s₁ h₁ => ?_
  have hdb : s₁.db = S.db := congrArg Session.db h₁.session
  have hskip : s₁.ignoreTillSync = S.ignoreTillSync := congrArg Session.ignoreTillSync h₁.session
  have hsteady := h₁.steady
  have hext : s₁.doingExtendedQueryMessage = m.kind.extended := h₁.steady.2.2.2.2.2.2.1.trans hkind
  -- the state after the test of `doing_extended_query_message`
  have hafter : ∀ s₂ : State σ, s₂ = { s₁ with
      db := B.abortTransaction S.db
      ignoreTillSync := m.kind.extended || S.ignoreTillSync } →
      wp (do
        if (← get).comm.pqCommReadingMsg then throw (.fatal syncLost)
        if !(← get).ignoreTillSync then
          modify fun s => { s with sendReadyForQuery := true } : PgM σ Unit) post exn s₂ := by
    rintro s₂ rfl
    rw [wp_bind, wp_get, if_neg (by simp [h₁.input.notReading]), wp_bind, wp_get]
    by_cases hskips : (m.kind.extended || S.ignoreTillSync) = true
    · rw [if_neg (by simp [hskips])]
      refine hpost _ ⟨?_, h₁.input, hsteady⟩
      rw [Session.cleared, hskips, Bool.not_true, Bool.or_false]
      exact congrArg (fun S' : Session σ =>
        { S' with db := B.abortTransaction S.db, ignoreTillSync := true }) h₁.session
    · have hdue : (m.kind.extended || S.ignoreTillSync) = false := by simpa using hskips
      rw [if_pos (by simp [hdue])]
      refine hpost _ ⟨?_, h₁.input, hsteady⟩
      rw [Session.cleared, hdue, Bool.not_false, Bool.or_true]
      exact congrArg (fun S' : Session σ => { S' with
        db := B.abortTransaction S.db
        ignoreTillSync := false
        sendReadyForQuery := true }) h₁.session
  rw [wp_bind, wp_modify, wp_bind, wp_get]
  by_cases hm : m.kind.extended = true
  · rw [if_pos (hext.trans hm), wp_bind, wp_modify]
    refine hafter _ ?_
    rw [hm, hdb, Bool.true_or]
  · rw [if_neg (by rwa [hext])]
    have hfalse : m.kind.extended = false := by simpa using hm
    refine hafter _ ?_
    rw [hfalse, Bool.false_or, ← hskip, hdb]

/-! ## One message -/

/-- As `Follows`, before the next `pq_startmsgread`. -/
structure Awaits (b : Build) (t : Transport) (n : ℕ) (u : List UInt8) (l : Locals) (S : Session σ)
    (s : State σ) : Prop where
  session : s.session = S
  input : Offers b t n u s.comm
  steady : Steady b l s

/-- With input left the loop awaits a message. -/
theorem Follows.awaits (h : Follows b t n u l S s) (hu : u ≠ []) : Awaits b t n u l S s :=
  ⟨h.session, h.input.offers hu, h.steady⟩

/-- `SocketBackend` reads the next message, and leaves skip mode at its end. -/
def Session.heard (S : Session σ) (m : Msg) : Session σ :=
  { S with ignoreTillSync := S.ignoreTillSync && !m.kind.endsSkip }

@[simp] theorem Session.handled_heard (B : Backend σ) (S : Session σ) (m : Msg) :
    (S.heard m).handled B m = S.handled B m := by
  simp [Session.handled, Session.heard]

/-- What follows `SocketBackend`: the session has heard the next message of the packet. -/
theorem socketBackend_spec {m : Msg} (h : Awaits b t n (m.encode ++ rest) l S s)
    {post : Option FrontendMsg → State σ → Prop} {exn : Stop → State σ → Prop}
    (hpost : ∀ s', Follows b t n rest (l.update m.kind.extended l.pipelining) (S.heard m) s' →
      s'.inBuf = m.body → post (some m.kind) s') :
    wp (socketBackend b B) post exn s := by
  obtain ⟨hbyte, hbody, hmid⟩ := h.input.readMessage
  rw [socketBackend, wp_bind, wp_record, wp_bind, wp_liftComm,
    wp_of_ok (pqStartmsgread_eq h.input.notReading), wp_bind, wp_liftRecv]
  simp only [hbyte, FrontendMsg.ofCode_code]
  rw [wp_bind, wp_modify, wp_bind, wp_liftRecv]
  simp only [hbody]
  rw [wp_bind, wp_modify]
  obtain ⟨hwire, hrepl, hauth, hport, hpeek, harmed, -, hpipe⟩ := h.steady
  refine hpost _ ⟨?_, hmid, hwire, hrepl, hauth, hport, hpeek, harmed, rfl, hpipe⟩ rfl
  rw [← h.session]
  simp [State.session, Session.heard, Event.visible]

/-- The protocol switch: a message is dispatched, and its handler succeeds or raises its error. -/
theorem protoSwitch_spec {m : Turn} (h : Follows b t n (encodeMsgs m.copies ++ rest) l S s)
    (hbuf : s.inBuf = m.body) (hkind : m.kind ≠ .terminate)
    (hcount : m.copies.length = (B.answer S.db m.toMsg).reads) (hremote : S.remote = true)
    {post : Bool → State σ → Prop} {exn : Stop → State σ → Prop}
    (hend : ∀ s', (Follows b t n rest l { S.handled B m.toMsg with
          sendReadyForQuery := m.kind.owesReady S.sendReadyForQuery l.pipelining
          ignoreTillSync := S.ignoreTillSync } s' →
        (B.answer S.db m.toMsg).error = none → post false s') ∧
      (Follows b t n rest l { S.handled B m.toMsg with ignoreTillSync := S.ignoreTillSync } s' →
        ∀ e, (B.answer S.db m.toMsg).error = some e → s'.errordata = some e → exn .error s')) :
    wp (protoSwitch b B (some m.kind)) post exn s := by
  have hdb : s.db = S.db := congrArg Session.db h.session
  have hpipe : s.pipelining = l.pipelining := h.steady.2.2.2.2.2.2.2
  rw [protoSwitch, wp_bind, wp_record, wp_bind, wp_get]
  simp only
  rw [wp_bind, wp_record]
  have hstart : Follows b t n (encodeMsgs m.copies ++ rest) l
      { S with out := S.out ++ [.dispatch m.kind m.body] }
      { s with trace := s.trace ++ [.raising .messageSwitch] ++ [.dispatch m.kind s.inBuf] } := by
    refine ⟨?_, h.input, h.steady⟩
    rw [← h.session, hbuf]
    simp [State.session, Event.visible]
  -- a kind of message that a handler of the backend answers
  have hexec : ∀ k : PgM σ Bool, B.answer S.db m.toMsg = B.exec S.db m.kind m.body →
      (∀ s', Follows b t n rest l { S with
          db := (B.answer S.db m.toMsg).next
          notifyInterruptPending := S.notifyInterruptPending || (B.answer S.db m.toMsg).notify
          out := S.out ++ .dispatch m.kind m.body :: (B.answer S.db m.toMsg).puts .message } s' →
        (B.answer S.db m.toMsg).error = none → wp k post exn s') →
      wp (do
        respond b .message (B.exec s.db m.kind s.inBuf)
        k) post exn
        { s with trace := s.trace ++ [.raising .messageSwitch] ++ [.dispatch m.kind s.inBuf] } := by
    intro k hanswer hk
    have hresponse : B.exec s.db m.kind s.inBuf = B.answer S.db m.toMsg := by
      rw [hdb, hbuf, hanswer]
    rw [wp_bind, hresponse]
    refine respond_spec .message _ m.copies m.inCopy hcount.symm hstart hremote fun s' h' => ?_
    rw [List.append_assoc, List.singleton_append] at h'
    refine ⟨fun hok => hk s' h' hok, fun e he hdata => (hend s').2 ?_ e he hdata⟩
    -- without success there is no CloseComplete
    have hout : B.output S.db m.toMsg = (B.answer S.db m.toMsg).puts .message := by
      simp [Backend.output, he]
    rw [Session.handled, hout]
    exact h'
  -- a kind of message without CloseComplete
  have hout : m.kind ≠ .close → B.output S.db m.toMsg = (B.answer S.db m.toMsg).puts .message := by
    intro hclose
    simp [Backend.output, hclose]
  -- a kind of message that is answered without a handler
  have hquiet : ∀ s', m.kind ≠ .close → B.answer S.db m.toMsg = ⟨[], none, false, S.db⟩ →
      m.kind.owesReady S.sendReadyForQuery l.pipelining = S.sendReadyForQuery →
      Follows b t n (encodeMsgs m.copies ++ rest) l
        { S with out := S.out ++ [.dispatch m.kind m.body] } s' → post false s' := by
    intro s' hclose hanswer howes h'
    have hnil : m.copies = [] := by simpa [hanswer, Response.reads] using hcount
    have hinput := h'.input
    rw [hnil] at hinput
    refine (hend _).1 ⟨?_, hinput, h'.steady⟩ (by rw [hanswer])
    rw [h'.session, Session.handled, hout hclose, hanswer, howes]
    simp [Response.puts]
  cases hk : m.kind with
  | query | functionCall | sync =>
      rw [hk] at hexec
      refine hexec _ (by simp [Backend.answer, hk]) fun s' h' hok => ?_
      rw [wp_bind, wp_modify]
      refine (hend _).1 ⟨?_, h'.input, h'.steady⟩ hok
      rw [Session.handled, hout (by simp [hk]), hk]
      exact congrArg (fun S' : Session σ => { S' with sendReadyForQuery := true }) h'.session
  | parse =>
      rw [hk] at hexec
      refine hexec _ (by simp [Backend.answer, hk]) fun s' h' hok => ?_
      rw [wp_bind, wp_modify]
      refine (hend _).1 ⟨?_, h'.input, h'.steady⟩ hok
      rw [Session.handled, hout (by simp [hk]), hk]
      exact congrArg (fun S' : Session σ => { S' with sendReadyForQuery := false }) h'.session
  | bind | execute | describe =>
      rw [hk] at hexec
      refine hexec _ (by simp [Backend.answer, hk]) fun s' h' hok => ?_
      have hready : s'.sendReadyForQuery = S.sendReadyForQuery :=
        congrArg Session.sendReadyForQuery h'.session
      have hpipe' : s'.pipelining = l.pipelining := h'.steady.2.2.2.2.2.2.2
      rw [deferReadyForQuery, wp_bind, wp_modify]
      refine (hend _).1 ⟨?_, h'.input, h'.steady⟩ hok
      rw [Session.handled, hout (by simp [hk]), hk, hready, hpipe']
      exact congrArg (fun S' : Session σ => { S' with
        sendReadyForQuery := S.sendReadyForQuery && !l.pipelining }) h'.session
  | close =>
      rw [hk] at hexec
      refine hexec _ (by simp [Backend.answer, hk]) fun s' h' hok => ?_
      have hcomplete : B.output S.db m.toMsg = (B.answer S.db m.toMsg).puts .message ++
          [.put .message (51 :: encodeBody [])] := by
        rw [Backend.output, if_pos ⟨hk, hok⟩]
      rw [wp_bind, wp_get, if_pos (h'.remote hremote), wp_bind]
      refine putmessage_spec h' _ _ _ fun s₂ _ h₂ => ?_
      have hready : s₂.sendReadyForQuery = S.sendReadyForQuery :=
        congrArg Session.sendReadyForQuery h₂.session
      have hpipe₂ : s₂.pipelining = l.pipelining := h₂.steady.2.2.2.2.2.2.2
      rw [deferReadyForQuery, wp_bind, wp_modify]
      refine (hend _).1 ⟨?_, h₂.input, h₂.steady⟩ hok
      rw [Session.handled, hcomplete, hk, hready, hpipe₂, ← List.cons_append, ← List.append_assoc]
      exact congrArg (fun S' : Session σ => { S' with
        sendReadyForQuery := S.sendReadyForQuery && !l.pipelining }) h₂.session
  | flush =>
      rw [hk] at hquiet hstart
      by_cases hempty : m.body = []
      · rw [if_neg (by simp [hbuf, hempty]), if_pos (h.remote hremote), wp_bind]
        refine internalFlush_spec hstart fun s₁ _ h₁ => ?_
        exact hquiet s₁ (by simp) (by simp [Backend.answer, hk, hempty]) rfl h₁
      · have hanswer : B.answer S.db m.toMsg =
            ⟨[], some ⟨.protocolViolation, "invalid message format"⟩, false, S.db⟩ := by
          simp [Backend.answer, hk, hempty]
        have hnil : m.copies = [] := by simpa [hanswer, Response.reads] using hcount
        have hinput := hstart.input
        rw [hnil] at hinput
        rw [if_pos (by simpa [hbuf] using hempty), ereport, wp_bind, wp_modify]
        refine (hend _).2 ⟨?_, hinput, hstart.steady⟩ _ (by rw [hanswer]) rfl
        rw [Session.handled, hout (by simp [hk]), hanswer, hk]
        refine Eq.trans hstart.session ?_
        simp [Response.puts]
  | terminate => exact absurd hk hkind
  | copyData | copyDone | copyFail =>
      rw [hk] at hquiet hstart
      exact hquiet _ (by simp) (by simp [Backend.answer, hk]) rfl hstart

/-- What the loop sees in the buffer is decided by the position in the packet. -/
theorem Follows.remaining (h : Follows b t n u l S s) :
    decide (0 < s.comm.pqBufferRemainingData) = t.more b n (n - u.length) := by
  rw [Transport.more, ← decide_not]
  exact decide_eq_decide.mpr h.input.remaining_pos_iff

/-- The test of the buffer that sets `pipelining`. -/
theorem Follows.pipelining (h : Follows b t n u l S s) :
    Follows b t n u (l.update l.extended (t.more b n (n - u.length))) S
      { s with pipelining := decide (0 < s.comm.pqBufferRemainingData) } := by
  obtain ⟨hwire, hrepl, hauth, hport, hpeek, harmed, hext, -⟩ := h.steady
  exact ⟨h.session, h.input, hwire, hrepl, hauth, hport, hpeek, harmed, hext, h.remaining⟩

/-- The lines after the protocol switch. -/
theorem betweenMessages_spec (h : Follows b t n u l S s) (hremote : S.remote = true)
    {post : Unit → State σ → Prop} {exn : Stop → State σ → Prop}
    (hpost : ∀ s', Follows b t n u (l.update l.extended (l.pipelining && t.more b n (n - u.length)))
      (S.between B (l.pipelining && t.more b n (n - u.length))) s' → post () s') :
    wp (betweenMessages B) post exn s := by
  -- the test for an owed ReadyForQuery, in the state after the test of the buffer
  have hdue : ∀ s₀ : State σ, Follows b t n u (l.update l.extended (t.more b n (n - u.length))) S s₀ →
      l.pipelining = true →
      wp (do
        if (← get).pipelining && (← get).sendReadyForQuery then
          readyForQuery B (← get).whereToSendOutput
          modify fun s => { s with sendReadyForQuery := false } : PgM σ Unit) post exn s₀ := by
    intro s₀ h₀ hpipe
    have hmore : s₀.pipelining = t.more b n (n - u.length) := h₀.steady.2.2.2.2.2.2.2
    have hready : s₀.sendReadyForQuery = S.sendReadyForQuery :=
      congrArg Session.sendReadyForQuery h₀.session
    rw [hpipe, Bool.true_and] at hpost
    rw [wp_bind, wp_get, wp_bind, wp_get, hmore, hready]
    by_cases howed : (t.more b n (n - u.length) && S.sendReadyForQuery) = true
    · rw [if_pos howed, wp_bind, wp_get, wp_bind, h₀.remote hremote]
      refine readyForQuery_spec h₀ fun s₁ h₁ => ?_
      rw [wp_modify]
      refine hpost _ ⟨?_, h₁.input, h₁.steady⟩
      rw [Session.between, if_pos howed]
      exact congrArg (fun S' : Session σ => { S' with sendReadyForQuery := false }) h₁.session
    · rw [if_neg howed]
      refine hpost _ ?_
      rw [Session.between, if_neg howed]
      exact h₀
  have hbefore : s.pipelining = l.pipelining := h.steady.2.2.2.2.2.2.2
  rw [betweenMessages, wp_bind, wp_get]
  by_cases hpipe : l.pipelining = true
  · rw [if_pos (hbefore.trans hpipe), wp_bind, wp_modify]
    exact hdue _ h.pipelining hpipe
  · have hfalse : l.pipelining = false := by simpa using hpipe
    rw [if_neg (by rwa [hbefore])]
    rw [hfalse, Bool.false_and] at hpost
    refine hpost s ?_
    rw [Session.between, if_neg (by simp), ← hfalse]
    exact h

/-! ## One round of the loop -/

/-- In skip mode a message that does not end it changes nothing. -/
theorem Session.heard_of_skips {S : Session σ} {m : Msg} (h : S.skips m.kind = true) :
    S.heard m = S := by
  have hboth : S.ignoreTillSync = true ∧ m.kind.endsSkip = false := by
    simpa [Session.skips] using h
  cases S
  simp_all [Session.heard]

/-- A round of the loop handles one turn. -/
theorem loopRound_spec {m : Turn} (hpeek : l.peek ≠ some 0 ∧ l.peek ≠ some 112)
    (hremote : S.remote = true)
    (hcount : m.copies.length = if S.skips m.kind then 0 else (B.answer S.db m.toMsg).reads)
    (h : Awaits b t n (m.encode ++ rest) l S s) {before after : Bool}
    (hbefore : before = t.more b n (n - (encodeMsgs m.copies ++ rest).length))
    (hafter : after = t.more b n (n - rest.length))
    {post : Label → State σ → Prop} {exn : Stop → State σ → Prop}
    (hskip : S.skips m.kind = true → ∀ s', Follows b t n rest (l.update m.kind.extended before) S s' →
      post .loop s')
    (hclose : S.skips m.kind = false → m.kind = .terminate → ∀ s',
      Follows b t n rest (l.update m.kind.extended false) (S.closed B m.toMsg) s' → post .wireFlush s')
    (hdone : S.skips m.kind = false → m.kind ≠ .terminate → (B.answer S.db m.toMsg).error = none →
      ∀ s', Follows b t n rest (l.update m.kind.extended (before && after))
        (S.done B m.toMsg before after) s' → post .loop s')
    (hraise : ∀ e, S.skips m.kind = false → m.kind ≠ .terminate →
      (B.answer S.db m.toMsg).error = some e → ∀ s', s'.errordata = some e →
        Follows b t n rest (l.update m.kind.extended before) (S.handled B m.toMsg) s' → exn .error s') :
    wp (loopRound b B) post exn s := by
  obtain ⟨hwire, hrepl, -, -, hpeek', -, -, hpipe⟩ := h.steady
  rw [← hpeek'] at hpeek
  obtain ⟨hpeek₀, hpeek₁⟩ := hpeek
  rw [Turn.encode, List.append_assoc] at h
  -- neither the repl nor the handshake
  rw [loopRound, wp_bind, wp_get, if_neg (by simp [hrepl]), wp_bind, wp_get, wp_bind, wp_get,
    if_neg (by simp [hpeek₀]), wp_bind, wp_get, wp_bind, wp_get, if_neg (by simp [hpeek₁]), wp_bind,
    nextMessage, wp_bind, wp_get, if_pos hwire, wp_bind]
  refine socketBackend_spec h fun s₁ h₁ hbuf => ?_
  rw [wp_bind, wp_modify, wp_pure, wp_bind, wp_get]
  have htested := h₁.pipelining
  rw [← hbefore] at htested
  have hbuf₂ : State.inBuf { s₁ with pipelining := decide (0 < s₁.comm.pqBufferRemainingData) } =
      m.body := hbuf
  generalize { s₁ with pipelining := decide (0 < s₁.comm.pqBufferRemainingData) } = s₂ at htested hbuf₂ ⊢
  have hskips : (s₂.ignoreTillSync && (some m.kind).any (· ≠ .sync)) = S.skips m.kind := by
    have hignore : s₂.ignoreTillSync = S.skips m.kind := congrArg Session.ignoreTillSync htested.session
    rw [hignore]
    cases hk : m.kind <;> simp [Session.skips, FrontendMsg.endsSkip]
  rw [hskips]
  by_cases hs : S.skips m.kind = true
  · rw [if_pos hs]
    rw [if_pos hs] at hcount
    have hnil : m.copies = [] := List.length_eq_zero_iff.mp hcount
    rw [S.heard_of_skips hs, hnil] at htested
    exact hskip hs s₂ htested
  rw [if_neg hs]
  rw [if_neg hs] at hcount
  have hnot : S.skips m.kind = false := by simpa using hs
  rw [wp_bind]
  by_cases hk : m.kind = .terminate
  · -- Terminate takes the shortcut to `wire_flush`
    have hanswer : B.answer S.db m.toMsg = ⟨[], none, false, S.db⟩ := by simp [Backend.answer, hk]
    have hnil : m.copies = [] := by simpa [hanswer, Response.reads] using hcount
    rw [hnil] at htested
    obtain ⟨hwire, hrepl, hauth, hport, hpeek, harmed, hext, -⟩ := htested.steady
    rw [hk, protoSwitch, wp_bind, wp_record, wp_bind, wp_get]
    simp only
    rw [wp_bind, wp_record, wp_bind, closeConnection, wp_modify, wp_pure, if_pos rfl, wp_pure]
    refine hclose hnot hk _ ⟨?_, htested.input, hwire, rfl, hauth, hport, hpeek, harmed, hext, rfl⟩
    have hnone : ∀ d : CommandDest,
        decide ((if d = .remote then CommandDest.none else d) = .remote) = false := by
      intro d
      cases d <;> rfl
    rw [Session.closed, ← S.handled_heard, Session.handled, Backend.output]
    refine Eq.trans ?_ (congrArg (fun S' : Session σ => { S' with
      ignoreTillSync := false
      sendReadyForQuery := false
      remote := false
      out := S'.out ++ [.dispatch .terminate m.body] }) htested.session) |>.trans ?_
    · simp [State.session, Event.visible, hbuf₂, hnone]
    · simp [Session.heard, hanswer, hk, Response.puts, FrontendMsg.endsSkip]
  · refine protoSwitch_spec htested hbuf₂ hk hcount hremote fun s₃ =>
      ⟨fun h₃ hok => ?_, fun h₃ e he hdata => ?_⟩
    · rw [if_neg (by simp), wp_bind]
      refine betweenMessages_spec h₃ hremote fun s₄ h₄ => ?_
      rw [← hafter] at h₄
      refine hdone hnot hk hok s₄ ?_
      rw [S.handled_heard] at h₄
      exact h₄
    · refine hraise e hnot hk he s₃ hdata ?_
      rw [S.handled_heard] at h₃
      exact h₃

/-- What a long jump leaves of `pipelining`. -/
theorem Follows.jumped (h : Follows b t n u l S s) :
    Follows b t n u (l.update l.extended (l.pipelining || b.pipeliningRestored)) S
      { s with pipelining := s.pipelining || b.pipeliningRestored } := by
  obtain ⟨hwire, hrepl, hauth, hport, hpeek, harmed, hext, hpipe⟩ := h.steady
  exact ⟨h.session, h.input, hwire, hrepl, hauth, hport, hpeek, harmed, hext,
    congrArg (· || b.pipeliningRestored) hpipe⟩

/-- The handler clears the error; it goes on with the packet while data is buffered, and gives up
after too many errors. -/
theorem handler_spec (h : Follows b t n u l S s) {e : ErrorReport} (he : s.errordata = some e)
    (hremote : S.remote = true) {m : Msg} (hkind : l.extended = m.kind.extended)
    {post : Label → State σ → Prop} {exn : Stop → State σ → Prop}
    (habort : t.more b n (n - u.length) = true → 8 < S.canaryEx → ∀ s', exn .abort s')
    (hgo : t.more b n (n - u.length) = true → ¬8 < S.canaryEx → ∀ s',
      Follows b t n u (l.update l.extended (l.pipelining || b.pipeliningRestored))
        { S.cleared B m e with canaryEx := S.canaryEx + 1 } s' → post .incoming s')
    (hflush : t.more b n (n - u.length) = false → ∀ s',
      Follows b t n u (l.update l.extended (l.pipelining || b.pipeliningRestored)) (S.cleared B m e) s' →
        post .wireFlush s') :
    wp (handler b B) post exn s := by
  rw [handler, wp_bind, wp_modify, wp_bind]
  refine clearError_spec h.jumped he hremote hkind fun s₁ h₁ => ?_
  have hcanary : s₁.canaryEx = S.canaryEx := congrArg Session.canaryEx h₁.session
  rw [wp_bind, wp_get]
  have hmore := h₁.remaining
  by_cases hpos : 0 < s₁.comm.pqBufferRemainingData
  · have htrue : t.more b n (n - u.length) = true := hmore ▸ decide_eq_true hpos
    rw [if_pos hpos, wp_bind, wp_get]
    by_cases hlimit : 8 < s₁.canaryEx
    · rw [if_pos hlimit]
      exact habort htrue (hcanary ▸ hlimit) s₁
    · rw [if_neg hlimit, wp_bind, wp_modify, wp_pure]
      refine hgo htrue (hcanary ▸ hlimit) _ ⟨?_, h₁.input, h₁.steady⟩
      rw [hcanary]
      exact congrArg (fun S' : Session σ => { S' with canaryEx := S.canaryEx + 1 }) h₁.session
  · have hfalse : t.more b n (n - u.length) = false := hmore ▸ decide_eq_false hpos
    rw [if_neg hpos, wp_pure]
    exact hflush hfalse s₁ h₁

/-- What a round of the loop leads to. -/
theorem step_loop_spec (B : Backend σ) (post : Option Label → State σ → Prop)
    (exn : Stop → State σ → Prop) {m : Turn} (hpeek : l.peek ≠ some 0 ∧ l.peek ≠ some 112)
    (hremote : S.remote = true) (hpipe : l.pipelining = true)
    (hcount : m.copies.length = if S.skips m.kind then 0 else (B.answer S.db m.toMsg).reads)
    (h : Awaits b t n (m.encode ++ rest) l S s) {before after : Bool}
    (hbefore : before = t.more b n (n - (encodeMsgs m.copies ++ rest).length))
    (hafter : after = t.more b n (n - rest.length))
    (hskip : S.skips m.kind = true → ∀ s', Follows b t n rest (l.update m.kind.extended before) S s' →
      post (some .loop) s')
    (hclose : S.skips m.kind = false → m.kind = .terminate → ∀ s',
      Follows b t n rest (l.update m.kind.extended false) (S.closed B m.toMsg) s' →
        post (some .wireFlush) s')
    (hdone : S.skips m.kind = false → m.kind ≠ .terminate → (B.answer S.db m.toMsg).error = none →
      ∀ s', Follows b t n rest (l.update m.kind.extended (before && after))
        (S.done B m.toMsg before after) s' → post (some .loop) s')
    (hraise : ∀ e, S.skips m.kind = false → m.kind ≠ .terminate →
      (B.answer S.db m.toMsg).error = some e → ∀ s', s'.errordata = some e →
        Follows b t n rest (l.update m.kind.extended before) (S.handled B m.toMsg) s' →
        if b.sigsetjmp then wp (handler b B) (fun l' => post (some l')) exn s' else exn .error s') :
    wp (step b B .loop) post exn s := by
  have hpipe' : s.pipelining = true := h.steady.2.2.2.2.2.2.2.trans hpipe
  rw [wp_step, block, wp_bind, wp_get, if_pos hpipe', wp_bind]
  refine loopRound_spec hpeek hremote hcount h hbefore hafter hskip hclose hdone fun e hs hk he s' hdata
    h' => ?_
  have harmed : s'.armed = b.sigsetjmp := h'.steady.2.2.2.2.2.1
  have hraised := hraise e hs hk he s' hdata h'
  rw [harmed]
  by_cases hb : b.sigsetjmp = true
  · rw [if_pos ⟨rfl, hb⟩]
    rwa [if_pos hb] at hraised
  · rw [if_neg fun hc => hb hc.2]
    rwa [if_neg hb] at hraised

/-! ## A whole packet -/

/-- The code from the loop head on ends as a played packet says. -/
def Attains (b : Build) (B : Backend σ) (t : Transport) (n : ℕ) (s : State σ) : Finish σ → Prop
  | .flush S rest => ∃ s' l,
      Leads (step b B) .loop s .wireFlush s' ∧ Follows b t n (encodeTurns rest) l S s' ∧ l.auth = false
  | .raised S m e rest => ∃ s' l,
      Ends (step b B) .loop s (.error .error s') ∧ Follows b t n (encodeTurns rest) l S s' ∧
        l.auth = false ∧ l.extended = m.kind.extended ∧ s'.errordata = some e
  | .abort => ∃ s', Ends (step b B) .loop s (.error .abort s')

/-- The loop attains what it attains from a later turn. -/
theorem Attains.of_leads {s s' : State σ} {F : Finish σ} (h : Attains b B t n s' F)
    (hleads : Leads (step b B) .loop s .loop s') : Attains b B t n s F := by
  cases F with
  | flush S rest =>
      obtain ⟨s'', l, hmore, hfollows⟩ := h
      exact ⟨s'', l, hleads.trans hmore, hfollows⟩
  | raised S m e rest =>
      obtain ⟨s'', l, hends, hrest⟩ := h
      exact ⟨s'', l, hleads.ends hends, hrest⟩
  | abort =>
      obtain ⟨s'', hends⟩ := h
      exact ⟨s'', hleads.ends hends⟩

/-- Once `pipelining` is off, the loop is left for `wire_flush`. -/
theorem leads_wireFlush (h : Follows b t n u l S s) (hpipe : l.pipelining = false) :
    Leads (step b B) .loop s .wireFlush s := by
  have hoff : ¬s.pipelining = true := by simp [h.steady.2.2.2.2.2.2.2, hpipe]
  have hrepl : ¬s.isRepl = true := by simp [h.steady.2.1]
  have hexit : step b B .loop s = .ok (some .resumeOnError) s := by
    rw [step, block, run_bind_ok (run_get _), if_neg hoff]
    rfl
  have hresume : step b B .resumeOnError s = .ok (some .wireFlush) s := by
    rw [step, block, run_bind_ok (run_get _), if_neg hrepl]
    rfl
  exact .jump hexit (.single hresume)

/-- After `incoming` the loop goes on. -/
theorem leads_incoming (h : Follows b t n u l S s) (hb : b.sigsetjmp = true) :
    ∃ s', Leads (step b B) .incoming s .loop s' ∧ Follows b t n u l S s' := by
  obtain ⟨hwire, hrepl, hauth, hport, hpeek, harmed, hext, hpipe⟩ := h.steady
  have hset : Follows b t n u l S { s with armed := true } :=
    ⟨h.session, h.input, hwire, hrepl, hauth, hport, hpeek, hb.symm, hext, hpipe⟩
  refine ⟨_, .single ?_, hset.note (e := .sigsetjmp) rfl⟩
  rw [step, block, if_pos hb]
  rfl

/-- Where the loop is after a turn: at its head, with the session `S'` and what the turn left of
`pipelining`. -/
def AttainsOnward (b : Build) (B : Backend σ) (t : Transport) (n p : ℕ) (l : Locals) (m : Turn)
    (ts : List Turn) : Prop :=
  ∀ (S' : Session σ) (s' : State σ) (ext pipelining : Bool), Covers B S'.mode ts → S'.remote = true →
    Follows b t n (encodeTurns ts) (l.update ext (pipelining && t.more b n (p + m.encode.length))) S' s' →
    Attains b B t n s' (S'.onward b B (t.more b n) p m ts pipelining)

/-- A turn that fails. -/
theorem attains_failed {m : Turn} {ts : List Turn} {p : ℕ} (hauth : l.auth = false)
    (hs : S.skips m.kind = false)
    (hk : m.kind ≠ .terminate) {e : ErrorReport} (herror : (B.answer S.db m.toMsg).error = some e)
    (hafter : t.more b n (p + m.encode.length) = t.more b n (n - (encodeTurns ts).length))
    (hcovers : Covers B (S.mode.step B m.toMsg) ts) (hremote : S.remote = true)
    (hnext : AttainsOnward b B t n p l m ts)
    (hraise : ∀ (post : Option Label → State σ → Prop) (exn : Stop → State σ → Prop),
      (∀ s', s'.errordata = some e →
        Follows b t n (encodeTurns ts) (l.update m.kind.extended (t.more b n (p + m.toMsg.encode.length)))
          (S.handled B m.toMsg) s' →
        if b.sigsetjmp then wp (handler b B) (fun l' => post (some l')) exn s' else exn .error s') →
      wp (step b B .loop) post exn s) :
    Attains b B t n s (S.play b B (t.more b n) p (m :: ts)) := by
  rw [← S.mode_cleared B m.toMsg hs herror] at hcovers
  have hremote' : (S.handled B m.toMsg).remote = true := hremote
  by_cases hb : b.sigsetjmp = true
  swap
  · -- no handler: the activation ends here
    have hnone : b.sigsetjmp = false := by simpa using hb
    rw [play_raised b B _ p m ts S hnone hs hk herror]
    have hstep := hraise (fun _ _ => False) (fun e' s' => e' = .error ∧
        Follows b t n (encodeTurns ts) (l.update m.kind.extended (t.more b n (p + m.toMsg.encode.length)))
          (S.handled B m.toMsg) s' ∧ s'.errordata = some e)
      (fun s' hdata h' => by rw [if_neg hb]; exact ⟨rfl, h', hdata⟩)
    obtain ⟨e', s', hblock, rfl, h', hdata⟩ := hstep.throws
    exact ⟨s', _, .fail hblock, h', hauth, rfl, hdata⟩
  by_cases hmore : t.more b n (p + m.encode.length) = true
  swap
  · -- nothing left: the reply is finished
    have hend : t.more b n (p + m.encode.length) = false := by simpa using hmore
    rw [play_failed_last b B _ p m ts S hb hs hk herror hend]
    have hstep := hraise (fun next s' => next = some .wireFlush ∧
        Follows b t n (encodeTurns ts)
          (l.update m.kind.extended (t.more b n (p + m.toMsg.encode.length) || b.pipeliningRestored))
          ((S.handled B m.toMsg).cleared B m.toMsg e) s') (fun _ _ => False)
      (fun s' hdata h' => by
        rw [if_pos hb]
        refine handler_spec h' hdata hremote' rfl (fun htrue => ?_) (fun htrue => ?_)
          fun _ s'' h'' => ⟨rfl, h''⟩
        all_goals rw [← hafter, hend] at htrue; cases htrue)
    obtain ⟨next, s', hblock, rfl, h'⟩ := hstep.returns
    exact ⟨s', _, .single hblock, h', hauth⟩
  by_cases hlimit : 8 < S.canaryEx
  · rw [play_failed_abort b B _ p m ts S hb hs hk herror hmore hlimit]
    have hstep := hraise (fun _ _ => False) (fun e' _ => e' = .abort)
      (fun s' hdata h' => by
        rw [if_pos hb]
        refine handler_spec h' hdata hremote' rfl (fun _ _ _ => rfl)
          (fun _ hlimit' => absurd hlimit hlimit') fun hnone => ?_
        rw [← hafter, hmore] at hnone
        cases hnone)
    obtain ⟨e', s', hblock, rfl⟩ := hstep.throws
    exact ⟨s', .fail hblock⟩
  · have honward := hnext { (S.handled B m.toMsg).cleared B m.toMsg e with canaryEx := S.canaryEx + 1 }
    rw [play_failed b B _ p m ts S hb hs hk herror hmore hlimit]
    have hstep := hraise (fun next s' => next = some .incoming ∧
        Follows b t n (encodeTurns ts)
          (l.update m.kind.extended (t.more b n (p + m.toMsg.encode.length) || b.pipeliningRestored))
          { (S.handled B m.toMsg).cleared B m.toMsg e with canaryEx := S.canaryEx + 1 } s')
      (fun _ _ => False)
      (fun s' hdata h' => by
        rw [if_pos hb]
        refine handler_spec h' hdata hremote' rfl (fun _ hlimit' => absurd hlimit' hlimit)
          (fun _ _ s'' h'' => ⟨rfl, h''⟩) fun hnone => ?_
        rw [← hafter, hmore] at hnone
        cases hnone)
    obtain ⟨next, s', hblock, rfl, h'⟩ := hstep.returns
    -- behind `incoming` the loop sees `pipelining` as the long jump left it
    obtain ⟨s'', hleads, h''⟩ := leads_incoming h' hb
    refine (honward s'' m.kind.extended _ hcovers hremote' ?_).of_leads (.jump hblock hleads)
    rw [hmore, Bool.and_true]
    exact h''

/-- **The loop plays the packet.** -/
theorem play_simulates (B : Backend σ) {p : ℕ} {ts : List Turn}
    (h : Awaits b t n (encodeTurns ts) l S s) (hserving : l.Serving)
    (hn : p + (encodeTurns ts).length = n) (hts : ts ≠ [])
    (hcovers : Covers B S.mode ts) (hremote : S.remote = true) (hpipe : l.pipelining = true) :
    Attains b B t n s (S.play b B (t.more b n) p ts) := by
  -- by induction on the turns: one round of the loop each
  induction ts generalizing p l S s with
  | nil => exact absurd rfl hts
  | cons m ts ih =>
      obtain ⟨hcount, hcovers⟩ := hcovers
      change m.copies.length = if S.skips m.kind then 0 else (B.answer S.db m.toMsg).reads at hcount
      rw [encodeTurns_cons] at h
      have hlen : p + m.encode.length + (encodeTurns ts).length = n := by
        rw [encodeTurns_cons, List.length_append] at hn
        omega
      have hmsg := m.length_encode
      have hbefore : t.more b n (p + m.toMsg.encode.length) =
          t.more b n (n - (encodeMsgs m.copies ++ encodeTurns ts).length) := by
        rw [List.length_append, Msg.length_encode]
        congr 1
        omega
      have hafter : t.more b n (p + m.encode.length) = t.more b n (n - (encodeTurns ts).length) := by
        congr 1
        omega
      have hnext : AttainsOnward b B t n p l m ts := by
        intro S' s' ext pipelining hcovers' hremote' h'
        rw [Session.onward]
        split_ifs with hgo
        · -- data is buffered, so the packet goes on
          have hne : encodeTurns ts ≠ [] := by
            intro hnil
            have hmore := (Bool.and_eq_true_iff.mp hgo).2
            rw [hnil, List.length_nil, Nat.add_zero] at hlen
            simp [Transport.more, Transport.Cut, hlen] at hmore
          have hts' : ts ≠ [] := by
            rintro rfl
            exact hne rfl
          exact ih (h'.awaits hne) ⟨hserving.auth, hserving.peek⟩ hlen hts' hcovers' hremote' hgo
        · have hstop : (pipelining && t.more b n (p + m.encode.length)) = false := by
            simpa only [Bool.not_eq_true] using hgo
          exact ⟨s', _, leads_wireFlush h' hstop, h', hserving.auth⟩
      have hround := fun post exn => step_loop_spec B post exn hserving.peek hremote hpipe
        hcount h hbefore hafter
      by_cases hs : S.skips m.kind = true
      · -- skipped: the handler reads nothing, so data is buffered before and after it or not at all
        rw [if_pos hs] at hcount
        have hnil : m.copies = [] := List.length_eq_zero_iff.mp hcount
        have hsame : t.more b n (p + m.toMsg.encode.length) = t.more b n (p + m.encode.length) := by
          rw [hbefore, hafter, hnil]
          rfl
        have hk : m.kind ≠ .terminate := by
          intro hk
          simp [hk, Session.skips, FrontendMsg.endsSkip] at hs
        have hcovers' := hcovers hk
        rw [Mode.step_of_skips B S m.toMsg hs] at hcovers'
        have hstep := hround (fun next s' => next = some .loop ∧
            Follows b t n (encodeTurns ts)
              (l.update m.kind.extended (t.more b n (p + m.toMsg.encode.length))) S s') (fun _ _ => False)
          (fun _ s' h' => ⟨rfl, h'⟩) (fun hnot => absurd (hs.symm.trans hnot) (by simp))
          (fun hnot => absurd (hs.symm.trans hnot) (by simp))
          (fun e hnot => absurd (hs.symm.trans hnot) (by simp))
        obtain ⟨next, s', hblock, rfl, h'⟩ := hstep.returns
        rw [play_skipped b B _ p m ts S hs]
        refine (hnext S s' m.kind.extended _ hcovers' hremote ?_).of_leads (.single hblock)
        rwa [← hsame, Bool.and_self]
      have hnot : S.skips m.kind = false := by simpa using hs
      by_cases hk : m.kind = .terminate
      · rw [play_closed b B _ p m ts S hnot hk]
        have hstep := hround (fun next s' => next = some .wireFlush ∧
            Follows b t n (encodeTurns ts) (l.update m.kind.extended false) (S.closed B m.toMsg) s')
          (fun _ _ => False) (fun hs' => absurd hs' hs) (fun _ _ s' h' => ⟨rfl, h'⟩)
          (fun _ hk' => absurd hk hk') (fun e _ hk' => absurd hk hk')
        obtain ⟨next, s', hblock, rfl, h'⟩ := hstep.returns
        exact ⟨s', _, .single hblock, h', hserving.auth⟩
      have hcovers' := hcovers hk
      cases herror : (B.answer S.db m.toMsg).error with
      | none =>
          obtain ⟨before, hb⟩ : ∃ before, t.more b n (p + m.toMsg.encode.length) = before := ⟨_, rfl⟩
          obtain ⟨after, ha⟩ : ∃ after, t.more b n (p + m.encode.length) = after := ⟨_, rfl⟩
          rw [← S.mode_done B m.toMsg hnot herror before after] at hcovers'
          rw [play_done b B _ p m ts S hnot hk herror, hb, ha]
          have hstep := hround (fun next s' => next = some .loop ∧
              Follows b t n (encodeTurns ts) (l.update m.kind.extended (before && after))
                (S.done B m.toMsg before after) s')
            (fun _ _ => False) (fun hs' => absurd hs' hs) (fun _ hk' => absurd hk' hk)
            (fun _ _ _ s' h' => ⟨rfl, by rwa [hb, ha] at h'⟩)
            (fun e _ _ he => absurd (herror.symm.trans he) (by simp))
          obtain ⟨next, s', hblock, rfl, h'⟩ := hstep.returns
          have hremote' : (S.done B m.toMsg before after).remote = true := by
            simpa [Session.done, Session.handled] using hremote
          refine (hnext _ s' m.kind.extended _ hcovers' hremote' ?_).of_leads (.single hblock)
          rwa [ha]
      | some e =>
          refine attains_failed hserving.auth hnot hk herror hafter hcovers' hremote hnext fun post exn
            hpost => ?_
          refine hround post exn (fun hs' => absurd hs' hs) (fun _ hk' => absurd hk' hk)
            (fun _ _ hok => absurd (herror.symm.trans hok) (by simp)) fun e' _ _ he' s' hdata h' => ?_
          obtain rfl : e = e' := Option.some.inj (herror.symm.trans he')
          exact hpost s' hdata h'

end PgliteBuild
