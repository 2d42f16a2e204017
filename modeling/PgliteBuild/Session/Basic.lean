import PgliteBuild.InteractiveOne.State
import PgliteBuild.Pqcomm.Receive

/-! # A session as its messages make it

An abstract model of one packet, in terms of messages instead of bytes, buffers, labels and jumps. A
packet is a list of turns: a message for the protocol switch with the COPY messages that its handler
reads. `Session` is what decides the next turn, and `Session.play` plays a packet: it says which turns
are dispatched, what is put on the connection, and what is left of the packet at the end. The
parameter `more` tells at which positions of the packet data is buffered; it is all that the transport
contributes. -/

namespace PgliteBuild

open Framing

/-! ## Packets -/

/-- A complete frontend message. -/
structure Msg where
  kind : FrontendMsg
  body : List UInt8
  /-- Its length word is within the limit of `SocketBackend`. -/
  fits : body.length + 4 ≤ kind.maxlen

/-- The bytes of a message: type byte, length word and body. -/
def Msg.encode (m : Msg) : List UInt8 := m.kind.code :: encodeBody m.body

@[simp] theorem Msg.length_encode (m : Msg) : m.encode.length = m.body.length + 5 := by
  simp [Msg.encode]

/-- A length word within the limit fits its four bytes. -/
theorem Msg.length_lt (m : Msg) : m.body.length + 4 < 4294967296 := by
  have hmax : m.kind.maxlen ≤ 1073741822 := by cases m.kind <;> decide
  have hfits := m.fits
  omega

/-- A message for the protocol switch, with the COPY messages that its handler reads. -/
structure Turn extends Msg where
  copies : List Msg
  inCopy : ∀ m ∈ copies, m.kind.inCopy = true

/-- A message whose handler reads nothing more. -/
def Msg.turn (m : Msg) : Turn := { m with copies := [], inCopy := by simp }

/-- The bytes of messages in order. -/
def encodeMsgs (ms : List Msg) : List UInt8 := ms.flatMap Msg.encode

/-- The bytes of a turn. -/
def Turn.encode (t : Turn) : List UInt8 := t.toMsg.encode ++ encodeMsgs t.copies

/-- The bytes of a packet. -/
def encodeTurns (ts : List Turn) : List UInt8 := ts.flatMap Turn.encode

@[simp] theorem encodeTurns_nil : encodeTurns [] = [] := rfl

@[simp] theorem encodeTurns_cons (t : Turn) (ts : List Turn) :
    encodeTurns (t :: ts) = t.encode ++ encodeTurns ts := rfl

/-- The length of a turn is that of its message and of its COPY messages. -/
theorem Turn.length_encode (t : Turn) :
    t.encode.length = t.body.length + 5 + (encodeMsgs t.copies).length := by
  rw [Turn.encode, List.length_append, Msg.length_encode]

/-! ## What the backend answers -/

variable {σ : Type}

/-- The bytes that a response puts on the connection, as events. -/
def Response.puts (source : Source) (r : Response σ) : List Event :=
  r.actions.filterMap fun
    | .putbytes bytes => some (.put source bytes)
    | .flush | .copyRead => none

/-- What the protocol switch answers to a message: the handlers, the check of Flush for contents, and
nothing for the other messages. -/
def Backend.answer (B : Backend σ) (d : σ) (m : Msg) : Response σ :=
  match m.kind with
  | .flush =>
    ⟨[], if m.body = [] then none else some ⟨.protocolViolation, "invalid message format"⟩, false, d⟩
  | .terminate | .copyData | .copyDone | .copyFail => ⟨[], none, false, d⟩
  | .query | .parse | .bind | .execute | .functionCall | .close | .describe | .sync =>
    B.exec d m.kind m.body

/-- What a message puts on the connection itself: Close ends with CloseComplete. -/
def Backend.output (B : Backend σ) (d : σ) (m : Msg) : List Event :=
  (B.answer d m).puts .message ++
    if m.kind = .close ∧ (B.answer d m).error = none then [.put .message (51 :: encodeBody [])] else []

/-! ## Sessions -/

/-- What decides how the next turn goes, and what happened so far. -/
structure Session (σ : Type) where
  db : σ
  sendReadyForQuery : Bool
  ignoreTillSync : Bool
  notifyInterruptPending : Bool
  canaryEx : ℕ
  /-- Whether `whereToSendOutput` is `DestRemote`. -/
  remote : Bool
  /-- The messages dispatched and the bytes put on the connection, in order. -/
  out : List Event

/-- ReadyForQuery in the current transaction state. -/
def Backend.readyPut (B : Backend σ) (d : σ) : Event :=
  .put .ready (90 :: encodeBody [(B.blockState d).statusCode])

/-- `send_ready_for_query` after a message that succeeds, with more data in the buffer or not. -/
def FrontendMsg.owesReady (m : FrontendMsg) (owed more : Bool) : Bool :=
  match m with
  | .query | .functionCall | .sync => true
  | .parse | .terminate => false
  | .bind | .execute | .describe | .close => owed && !more
  | .flush | .copyData | .copyDone | .copyFail => owed

/-- The messages that are answered by ReadyForQuery. -/
def FrontendMsg.answersReady : FrontendMsg → Bool
  | query | functionCall | sync => true
  | parse | bind | execute | close | describe | flush | terminate | copyData | copyDone | copyFail =>
    false

/-- With no ReadyForQuery owed before it, a message owes what it answers. -/
theorem FrontendMsg.owesReady_false (m : FrontendMsg) (more : Bool) :
    m.owesReady false more = m.answersReady := by
  cases m <;> rfl

namespace Session

variable (B : Backend σ) (S : Session σ) (t : Turn)

/-- Whether the session is in skip mode and the message does not end it. -/
def skips (m : FrontendMsg) : Bool := S.ignoreTillSync && !m.endsSkip

/-- A message is dispatched and its handler runs. -/
def handled (m : Msg) : Session σ :=
  { S with
    db := (B.answer S.db m).next
    ignoreTillSync := S.ignoreTillSync && !m.kind.endsSkip
    notifyInterruptPending := S.notifyInterruptPending || (B.answer S.db m).notify
    out := S.out ++ .dispatch m.kind m.body :: B.output S.db m }

/-- The last lines of the loop: ReadyForQuery, if it is owed and more data is in the buffer. -/
def between (more : Bool) : Session σ :=
  if more && S.sendReadyForQuery then
    { S with sendReadyForQuery := false, out := S.out ++ [B.readyPut S.db] }
  else S

/-- A message that succeeds; `before` and `after` tell whether data is in the buffer before and after
its handler runs. -/
def done (m : Msg) (before after : Bool) : Session σ :=
  between B { S.handled B m with
    sendReadyForQuery := m.kind.owesReady S.sendReadyForQuery before } (before && after)

/-- `clear_error` after an error of a message. -/
def cleared (m : Msg) (e : ErrorReport) : Session σ :=
  { S with
    db := B.abortTransaction S.db
    ignoreTillSync := m.kind.extended || S.ignoreTillSync
    sendReadyForQuery := S.sendReadyForQuery || !(m.kind.extended || S.ignoreTillSync)
    out := S.out ++ [.put .error (69 :: encodeBody (B.errorBody e))] }

/-- Terminate. -/
def closed (m : Msg) : Session σ :=
  { S.handled B m with sendReadyForQuery := false, remote := false }

/-- `ProcessNotifyInterrupt` at the end of a packet. -/
def notified : Session σ :=
  if S.notifyInterruptPending && decide (B.blockState S.db = .idle) then
    { S with
      db := (B.processNotify S.db).next
      notifyInterruptPending := (B.processNotify S.db).notify
      out := S.out ++ if S.remote then (B.processNotify S.db).puts .notification else [] }
  else S

/-- The end of a packet: pending notifications, and the last ReadyForQuery. -/
def finished : Session σ :=
  between B (S.notified B) true

end Session

/-! ## Playing a packet -/

/-- How the loop over a packet ends. -/
inductive Finish (σ : Type) where
  /-- At `wire_flush`, with the turns that were not reached. -/
  | flush (S : Session σ) (rest : List Turn)
  /-- With an error of a message, for lack of a handler. -/
  | raised (S : Session σ) (m : Msg) (e : ErrorReport) (rest : List Turn)
  /-- In `abort()`. -/
  | abort

/-- Play the turns of a packet from position `p` on. `more` tells at which positions data is buffered. The
build tells whether errors are handled, and whether the long jump of an error makes `pipelining` true again
where its message was the last in the buffer. -/
def Session.play (b : Build) (B : Backend σ) (more : ℕ → Bool) : ℕ → List Turn → Session σ → Finish σ
  | _, [], S => .flush S []
  | p, t :: ts, S =>
    let before := more (p + t.toMsg.encode.length)
    let after := more (p + t.encode.length)
    let next := fun (pipelining : Bool) (S : Session σ) =>
      if pipelining && after then play b B more (p + t.encode.length) ts S else .flush S ts
    if S.skips t.kind then next before S
    else if t.kind = .terminate then .flush (S.closed B t.toMsg) ts
    else
      match (B.answer S.db t.toMsg).error with
      | none => next before (S.done B t.toMsg before after)
      | some e =>
        if !b.sigsetjmp then .raised (S.handled B t.toMsg) t.toMsg e ts
        else if after then
          if 8 < S.canaryEx then .abort
          else next (before || b.pipeliningRestored)
            { (S.handled B t.toMsg).cleared B t.toMsg e with canaryEx := S.canaryEx + 1 }
        else .flush ((S.handled B t.toMsg).cleared B t.toMsg e) ts

/-! ## One turn of a packet -/

section Turns

variable (b : Build) (B : Backend σ) (more : ℕ → Bool) (p : ℕ) (t : Turn) (ts : List Turn)
  (S : Session σ)

/-- What follows a turn that left the session `S` and the local `pipelining`. -/
def Session.onward (pipelining : Bool) (S : Session σ) : Finish σ :=
  if pipelining && more (p + t.encode.length) then S.play b B more (p + t.encode.length) ts
  else .flush S ts

/-- A turn that is skipped leaves the session as it is. -/
theorem play_skipped (hs : S.skips t.kind = true) :
    S.play b B more p (t :: ts) = S.onward b B more p t ts (more (p + t.toMsg.encode.length)) := by
  rw [Session.play, if_pos hs]
  rfl

/-- A Terminate ends the packet. -/
theorem play_closed (hs : S.skips t.kind = false) (hk : t.kind = .terminate) :
    S.play b B more p (t :: ts) = .flush (S.closed B t.toMsg) ts := by
  rw [Session.play, if_neg (by simp [hs]), if_pos hk]

/-- A turn that succeeds is done, and the packet goes on. -/
theorem play_done (hs : S.skips t.kind = false) (hk : t.kind ≠ .terminate)
    (herror : (B.answer S.db t.toMsg).error = none) :
    S.play b B more p (t :: ts) =
      (S.done B t.toMsg (more (p + t.toMsg.encode.length)) (more (p + t.encode.length))).onward b B more p t ts
        (more (p + t.toMsg.encode.length)) := by
  rw [Session.play, if_neg (by simp [hs]), if_neg hk, herror]
  rfl

/-- Without a handler an error ends the packet. -/
theorem play_raised (hb : b.sigsetjmp = false) (hs : S.skips t.kind = false) (hk : t.kind ≠ .terminate)
    {e : ErrorReport} (herror : (B.answer S.db t.toMsg).error = some e) :
    S.play b B more p (t :: ts) = .raised (S.handled B t.toMsg) t.toMsg e ts := by
  rw [Session.play, if_neg (by simp [hs]), if_neg hk, herror]
  simp only [hb]
  rfl

/-- An error of the last turn ends the packet. -/
theorem play_failed_last (hb : b.sigsetjmp = true) (hs : S.skips t.kind = false) (hk : t.kind ≠ .terminate)
    {e : ErrorReport} (herror : (B.answer S.db t.toMsg).error = some e)
    (hmore : more (p + t.encode.length) = false) :
    S.play b B more p (t :: ts) = .flush ((S.handled B t.toMsg).cleared B t.toMsg e) ts := by
  rw [Session.play, if_neg (by simp [hs]), if_neg hk, herror]
  simp only [hb, Bool.not_true, hmore]
  rfl

/-- Too many errors abort the process. -/
theorem play_failed_abort (hb : b.sigsetjmp = true) (hs : S.skips t.kind = false) (hk : t.kind ≠ .terminate)
    {e : ErrorReport} (herror : (B.answer S.db t.toMsg).error = some e)
    (hmore : more (p + t.encode.length) = true) (hlimit : 8 < S.canaryEx) :
    S.play b B more p (t :: ts) = .abort := by
  rw [Session.play, if_neg (by simp [hs]), if_neg hk, herror]
  simp only [hb, Bool.not_true, hmore, hlimit]
  rfl

/-- Up to eight errors before it, an error with data behind it lets the packet go on. -/
theorem play_failed (hb : b.sigsetjmp = true) (hs : S.skips t.kind = false) (hk : t.kind ≠ .terminate)
    {e : ErrorReport} (herror : (B.answer S.db t.toMsg).error = some e)
    (hmore : more (p + t.encode.length) = true) (hlimit : ¬8 < S.canaryEx) :
    S.play b B more p (t :: ts) =
      Session.onward b B more p t ts (more (p + t.toMsg.encode.length) || b.pipeliningRestored)
        { (S.handled B t.toMsg).cleared B t.toMsg e with canaryEx := S.canaryEx + 1 } := by
  rw [Session.play, if_neg (by simp [hs]), if_neg hk, herror]
  simp only [hb, Bool.not_true, hmore, hlimit, Session.onward]
  rfl

/-- The turns that a played packet leaves are at its end, and not all of it. -/
theorem play_rest {S' : Session σ} {rest : List Turn} {ts : List Turn}
    (h : S.play b B more p ts = .flush S' rest) : rest <:+ ts.tail := by
  -- a turn is followed by the end of the loop, or by the next turns
  have honward : ∀ (ts : List Turn) (p : ℕ) (t : Turn) (pipelining : Bool) (S : Session σ),
      (∀ (p : ℕ) (S : Session σ), S.play b B more p ts = .flush S' rest → rest <:+ ts.tail) →
      S.onward b B more p t ts pipelining = .flush S' rest → rest <:+ ts := by
    intro ts p t pipelining S ih h
    rw [Session.onward] at h
    split_ifs at h with hgo
    · exact (ih _ S h).trans (List.tail_suffix ts)
    · cases h
      exact List.suffix_rfl
  induction ts generalizing p S with
  | nil =>
      cases h
      exact List.suffix_rfl
  | cons t ts ih =>
      have ih' := fun p S => ih p S
      by_cases hs : S.skips t.kind = true
      · rw [play_skipped b B _ p t ts S hs] at h
        exact honward ts p t _ S ih' h
      have hnot : S.skips t.kind = false := by simpa using hs
      by_cases hk : t.kind = .terminate
      · rw [play_closed b B _ p t ts S hnot hk] at h
        cases h
        exact List.suffix_rfl
      cases herror : (B.answer S.db t.toMsg).error with
      | none =>
          rw [play_done b B _ p t ts S hnot hk herror] at h
          exact honward ts p t _ _ ih' h
      | some e =>
          cases hb : b.sigsetjmp with
          | false =>
              rw [play_raised b B _ p t ts S hb hnot hk herror] at h
              cases h
          | true =>
              cases hmore : more (p + t.encode.length) with
              | false =>
                  rw [play_failed_last b B _ p t ts S hb hnot hk herror hmore] at h
                  cases h
                  exact List.suffix_rfl
              | true =>
                  by_cases hlimit : 8 < S.canaryEx
                  · rw [play_failed_abort b B _ p t ts S hb hnot hk herror hmore hlimit] at h
                    cases h
                  · rw [play_failed b B _ p t ts S hb hnot hk herror hmore hlimit] at h
                    exact honward ts p t _ _ ih' h

end Turns

/-- What is left of a packet after its first turn is shorter than the packet. -/
theorem length_encodeTurns_lt {rest ts : List Turn} (h : rest <:+ ts.tail) (hts : ts ≠ []) :
    (encodeTurns rest).length < (encodeTurns ts).length := by
  obtain ⟨t, ts', rfl⟩ := List.exists_cons_of_ne_nil hts
  obtain ⟨front, hfront⟩ := h
  have hturn := t.length_encode
  rw [List.tail_cons] at hfront
  rw [encodeTurns_cons, ← hfront, encodeTurns, encodeTurns, List.flatMap_append]
  simp only [List.length_append]
  omega

/-- The positions of a packet of `n` bytes at which data is buffered. -/
def Transport.more (b : Build) (t : Transport) (n p : ℕ) : Bool := !decide (t.Cut b n p)

/-! ## Handlers that find their messages -/

/-- What decides whether messages are skipped, and how they are answered. -/
structure Mode (σ : Type) where
  db : σ
  /-- Skip mode: until the next Sync. -/
  skip : Bool

/-- Whether a message is skipped; Sync ends skip mode, and so does Terminate with the session. -/
def Mode.skips (M : Mode σ) (m : FrontendMsg) : Bool := M.skip && !m.endsSkip

/-- The mode after a message: an error of an extended-query message starts skip mode. -/
def Mode.step (B : Backend σ) (M : Mode σ) (m : Msg) : Mode σ :=
  if M.skips m.kind then M
  else
    match (B.answer M.db m).error with
    | none => ⟨(B.answer M.db m).next, false⟩
    | some _ => ⟨B.abortTransaction (B.answer M.db m).next, m.kind.extended⟩

/-- Every handler that runs reads exactly the COPY messages that belong to its turn. -/
def Covers (B : Backend σ) : Mode σ → List Turn → Prop
  | _, [] => True
  | M, t :: ts =>
    t.copies.length = (if M.skips t.kind then 0 else (B.answer M.db t.toMsg).reads) ∧
      (t.kind ≠ .terminate → Covers B (M.step B t.toMsg) ts)

/-- Handlers that read nothing need no COPY messages. -/
theorem covers_of_reads {B : Backend σ} (hreads : ∀ d m body, (B.exec d m body).reads = 0)
    {ts : List Turn} (hcopies : ∀ t ∈ ts, t.copies = []) (M : Mode σ) : Covers B M ts := by
  induction ts generalizing M with
  | nil => trivial
  | cons t ts ih =>
      have hanswer : (B.answer M.db t.toMsg).reads = 0 := by
        unfold Backend.answer
        split <;> first | rfl | exact hreads _ _ _
      refine ⟨?_, fun _ => ih (fun t ht => hcopies t (by simp [ht])) _⟩
      rw [hcopies t (by simp), hanswer, ite_self]
      rfl

/-- The mode of a session. -/
def Session.mode (S : Session σ) : Mode σ := ⟨S.db, S.ignoreTillSync⟩

section Mode

variable (B : Backend σ) (S : Session σ) (m : Msg)

@[simp] theorem between_db (more : Bool) : (S.between B more).db = S.db := by
  unfold Session.between
  split_ifs <;> rfl

@[simp] theorem between_ignoreTillSync (more : Bool) :
    (S.between B more).ignoreTillSync = S.ignoreTillSync := by
  unfold Session.between
  split_ifs <;> rfl

@[simp] theorem between_remote (more : Bool) : (S.between B more).remote = S.remote := by
  unfold Session.between
  split_ifs <;> rfl

@[simp] theorem between_canaryEx (more : Bool) : (S.between B more).canaryEx = S.canaryEx := by
  unfold Session.between
  split_ifs <;> rfl

/-- A skipped message leaves the mode as it is. -/
theorem Mode.step_of_skips (h : S.skips m.kind = true) : S.mode.step B m = S.mode := by
  have hskips : S.mode.skips m.kind = true := h
  rw [Mode.step, if_pos hskips]

/-- A message that succeeds takes the session to the next mode. -/
theorem Session.mode_done (h : S.skips m.kind = false) (herror : (B.answer S.db m).error = none)
    (before after : Bool) : (S.done B m before after).mode = S.mode.step B m := by
  have hskips : S.mode.skips m.kind = false := h
  have hleft : (S.ignoreTillSync && !m.kind.endsSkip) = false := h
  have herror' : (B.answer S.mode.db m).error = none := herror
  rw [Mode.step, if_neg (by simp [hskips]), herror']
  simp [Session.mode, Session.done, Session.handled, hleft]

/-- A message that fails takes the session to the next mode. -/
theorem Session.mode_cleared (h : S.skips m.kind = false) {e : ErrorReport}
    (herror : (B.answer S.db m).error = some e) :
    ((S.handled B m).cleared B m e).mode = S.mode.step B m := by
  have hskips : S.mode.skips m.kind = false := h
  have hleft : (S.ignoreTillSync && !m.kind.endsSkip) = false := h
  have herror' : (B.answer S.mode.db m).error = some e := herror
  rw [Mode.step, if_neg (by simp [hskips]), herror']
  simp [Session.mode, Session.cleared, Session.handled, hleft]

end Mode

end PgliteBuild
