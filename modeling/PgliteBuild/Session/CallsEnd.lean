import PgliteBuild.InteractiveOne.ArmedHandler
import PgliteBuild.InteractiveOne.Modes
import PgliteBuild.Pqcomm.Unread

/-! # Every call comes to an end

A call goes from label to label, and an error takes it back: behind an error with input left the loop starts again,
and without input `wire_flush` does. A round of the loop leaves less to read, the handler counts the errors that come
before the end of the input, and a delivered notification is no longer pending; `rank` puts the three together. Only
a message reader of the backend can break this: with an empty buffer its `pq_startmsgread` points at the memory area
again, and the packet is read from its start. -/

namespace PgliteBuild

open Effect Framing Runs

variable {σ α : Type} {b : Build} {B : Backend σ}

/-! ## How much a computation reads -/

/-- At most `n` bytes are left to read. -/
def AtMost (n : ℕ) (s : State σ) : Prop := s.comm.unread.length ≤ n

/-- `m` leaves at most `n` bytes to read. -/
abbrev LeavesAtMost (n : ℕ) (m : PgM σ α) (s : State σ) : Prop := wp m (fun _ => AtMost n) (fun _ => AtMost n) s

/-- Code that does not read leaves what there is. -/
theorem KeepsInput.leaves {m : PgM σ α} (h : KeepsInput m) {n : ℕ} {s : State σ} (hs : AtMost n s) :
    LeavesAtMost n m s := by
  have hside : ∀ s' : State σ, s'.comm.recvSide = s.comm.recvSide → AtMost n s' :=
    fun s' hsame => (length_unread_of_recvSide hsame).le.trans hs
  exact wp_mono (h.recvSide s) (fun _ => hside) fun _ => hside

/-- Code that only sends leaves as much to read as there is. -/
theorem SendMoves.leaves {m : PgM σ α} (h : SendMoves m) {n : ℕ} {s : State σ} (hs : AtMost n s) :
    LeavesAtMost n m s := (keepsInput_of_sends h).leaves hs

/-- The bytes that a message starting now can read. -/
def Comm.toRead (b : Build) (c : Comm) : ℕ := (c.startmsgread b).unread.length

/-- A message that starts now can read at least what is unread. -/
theorem atMost_toRead (b : Build) (s : State σ) : AtMost (s.comm.toRead b) s := length_unread_le_startmsgread b s.comm

/-- A reader starts a message; what comes behind it has at most as much to read. -/
theorem leaves_startmsg {f : Unit → PgM σ α} {s : State σ}
    (hf : ∀ s', s'.comm = s.comm.startmsgread b → LeavesAtMost (s.comm.toRead b) (f ()) s') :
    LeavesAtMost (s.comm.toRead b) (liftComm (pqStartmsgread b) >>= f) s := by
  rw [LeavesAtMost, wp_bind, wp_liftComm]
  rcases Bool.eq_false_or_eq_true s.comm.pqCommReadingMsg with hreading | hreading
  · rw [wp_of_error (pqStartmsgread_reading hreading)]
    exact atMost_toRead b s
  · rw [wp_of_ok (pqStartmsgread_eq hreading)]
    exact hf _ rfl

/-- `pq_getbyte` leaves no more to read, and less if it returns a byte. -/
theorem leaves_getbyte {f : Option UInt8 → PgM σ α} {n : ℕ} {s : State σ} (hs : AtMost n s)
    (hnone : ∀ s', AtMost n s' → LeavesAtMost n (f none) s')
    (hsome : ∀ t s', s'.comm.unread.length < n → LeavesAtMost n (f (some t)) s') :
    LeavesAtMost n (liftRecv (pqGetbyte b) >>= f) s := by
  have hbyte := length_unread_pqGetbyte b s.comm
  rw [LeavesAtMost, wp_bind, wp_liftRecv]
  generalize pqGetbyte b s.comm = r at hbyte
  obtain ⟨_ | t, c⟩ := r
  · exact hnone _ (hbyte.trans hs)
  · exact hsome t _ (Nat.lt_of_lt_of_le (Nat.lt_of_succ_le hbyte) hs)

/-- `pq_getmessage` leaves no more to read. -/
theorem leaves_getmessage {f : Option (List UInt8) → PgM σ α} {n maxlen : ℕ} {s : State σ} (hs : AtMost n s)
    (hf : ∀ body s', AtMost n s' → LeavesAtMost n (f body) s') :
    LeavesAtMost n (liftRecv (pqGetmessage b maxlen) >>= f) s := by
  rw [LeavesAtMost, wp_bind, wp_liftRecv]
  exact hf _ _ ((length_unread_pqGetmessage b maxlen s.comm).trans hs)

/-- A sequence leaves no more to read if its parts do not. -/
theorem leaves_bind {β : Type} {m : PgM σ β} {f : β → PgM σ α} {n : ℕ} {s : State σ} (hm : LeavesAtMost n m s)
    (hf : ∀ a s', AtMost n s' → LeavesAtMost n (f a) s') : LeavesAtMost n (m >>= f) s :=
  (wp_bind _ _ _ _ _).mpr (wp_mono hm hf fun _ _ h => h)

/-! ## Startup and the protocol switch -/

/-- `discard_input` leaves no more to read than a message that starts could read. -/
theorem leaves_discardInput (s : State σ) : LeavesAtMost (s.comm.toRead b) (discardInput b : PgM σ Unit) s := by
  have hbytes : ∀ (n k : ℕ) (s' : State σ), AtMost n s' → LeavesAtMost n (discardBytes b k : PgM σ Unit) s' := by
    intro n k
    induction k with
    | zero => exact fun _ h => h
    | succ k ih =>
        intro s' h
        exact leaves_getbyte h (fun s₁ h₁ => ih s₁ h₁) fun _ s₁ h₁ => ih s₁ h₁.le
  rw [discardInput, LeavesAtMost, wp_bind, wp_get]
  split_ifs
  · exact atMost_toRead b s
  · apply leaves_startmsg
    intro s₁ h₁
    have hstart : AtMost (s.comm.toRead b) s₁ := by rw [AtMost, h₁, Comm.toRead]
    rw [LeavesAtMost, wp_bind, wp_get]
    refine leaves_bind (hbytes _ _ s₁ hstart) fun _ s₂ h₂ => ?_
    exact h₂

/-- `startup_auth` leaves no more to read than a message that starts could read. -/
theorem leaves_startupAuth (s : State σ) : LeavesAtMost (s.comm.toRead b) (startupAuth b : PgM σ Unit) s := by
  have hreply : SendMoves (do
      modify fun s => { s with clientAuthInProgress := true }
      putmessage .auth 82 (word32 5 ++ [0x01, 0x23, 0x45, 0x56])
      liftComm internalFlush : PgM σ Unit) :=
    performs_bind (sends_modify fun _ => by constructor <;> rfl) fun _ =>
      performs_bind (sends_putmessage _ _ _) fun _ => sends_flush
  rw [startupAuth, LeavesAtMost, wp_bind, wp_record, wp_bind, wp_modify, wp_bind, wp_modify]
  exact leaves_bind (leaves_discardInput _) fun _ _ h => SendMoves.leaves hreply h

/-- `recv_password_packet` leaves no more to read than a message that starts could read. -/
theorem leaves_recvPasswordPacket (s : State σ) :
    LeavesAtMost (s.comm.toRead b) (recvPasswordPacket b : PgM σ (Option (List UInt8))) s := by
  have hreport : ∀ (errcode : Errcode) (errmsg : String) (n : ℕ) (s' : State σ), AtMost n s' →
      LeavesAtMost n (ereport errcode errmsg : PgM σ (Option (List UInt8))) s' :=
    fun errcode errmsg n s' => (sends_ereport errcode errmsg).leaves
  apply leaves_startmsg
  intro s₁ h₁
  -- what `pq_startmsgread` finds to read is the bound; every read behind it lowers what is left
  have hstart : AtMost (s.comm.toRead b) s₁ := by rw [AtMost, h₁, Comm.toRead]
  refine leaves_getbyte hstart (fun _ h => h) fun t s₂ h₂ => ?_
  dsimp only
  split_ifs
  · exact hreport _ _ _ _ h₂.le
  · refine leaves_getmessage h₂.le fun body s₃ h₃ => ?_
    cases body with
    | none => exact h₃
    | some body =>
        dsimp only
        split_ifs
        · exact hreport _ _ _ _ h₃
        · exact hreport _ _ _ _ h₃
        · exact h₃

/-- `startup_pass` leaves no more to read than a message that starts could read. -/
theorem leaves_startupPass (s : State σ) : LeavesAtMost (s.comm.toRead b) (startupPass b B true) s := by
  rw [startupPass, LeavesAtMost, wp_bind, wp_record]
  dsimp only
  rw [if_pos rfl]
  refine leaves_bind (leaves_recvPasswordPacket _) fun passwd s₁ h₁ => ?_
  cases passwd with
  | none => exact h₁
  | some body => exact (sends_accept B).leaves h₁

/-! ## The message reader of COPY FROM STDIN -/

/-- The connection behind a message that COPY FROM STDIN read. -/
def Comm.copyRead (b : Build) (c : Comm) : Option Comm :=
  if c.pqCommReadingMsg then none
  else
    match pqGetbyte b (c.startmsgread b) with
    | (none, _) => none
    | (some t, c') => ((FrontendMsg.ofCode t).filter FrontendMsg.inCopy).bind fun m =>
        let r := pqGetmessage b m.maxlen c'
        r.1.map fun _ => r.2

/-- Reading a COPY message moves the connection as `Comm.copyRead` says. -/
theorem copyRead_comm (s : State σ) :
    wp (copyRead b) (fun _ s' => s.comm.copyRead b = some s'.comm) (fun _ _ => True) s := by
  rw [PgliteBuild.copyRead, wp_bind, wp_liftComm]
  rcases Bool.eq_false_or_eq_true s.comm.pqCommReadingMsg with hreading | hreading
  · rw [wp_of_error (pqStartmsgread_reading hreading)]
    trivial
  rw [wp_of_ok (pqStartmsgread_eq hreading), wp_bind, wp_liftRecv, Comm.copyRead, if_neg (by simp [hreading])]
  generalize pqGetbyte b (s.comm.startmsgread b) = r
  obtain ⟨_ | t, c⟩ := r
  · exact trivial
  dsimp only
  cases (FrontendMsg.ofCode t).filter FrontendMsg.inCopy with
  | none => exact trivial
  | some m =>
      rw [wp_bind, wp_liftRecv]
      dsimp only [Option.bind_some]
      generalize pqGetmessage b m.maxlen c = r
      obtain ⟨_ | body, c'⟩ := r
      · exact trivial
      · exact rfl

/-- Reading a COPY message leaves no more to read than a message that starts could read. -/
theorem leaves_copyRead (s : State σ) : LeavesAtMost (s.comm.toRead b) (copyRead b : PgM σ Unit) s := by
  apply leaves_startmsg
  intro s₁ h₁
  have hstart : AtMost (s.comm.toRead b) s₁ := by rw [AtMost, h₁, Comm.toRead]
  have hreport : ∀ (errmsg : String) (errcode : Errcode) (s' : State σ), AtMost (s.comm.toRead b) s' →
      LeavesAtMost (s.comm.toRead b) (ereport errcode errmsg : PgM σ Unit) s' :=
    fun errmsg errcode s' => (sends_ereport errcode errmsg).leaves
  apply leaves_getbyte hstart
  · exact fun s₂ h₂ => hreport _ _ s₂ h₂
  intro t s₂ h₂
  dsimp only
  cases (FrontendMsg.ofCode t).filter FrontendMsg.inCopy with
  | none => exact hreport _ _ s₂ h₂.le
  | some m =>
      refine leaves_getmessage h₂.le fun body s₃ h₃ => ?_
      cases body with
      | none => exact hreport _ _ s₃ h₃
      | some body => exact h₃

/-- Every message reader among the actions finds its input: there is data in the buffer, or it comes from a file. -/
def FindsInput (b : Build) : List Action → Comm → Prop
  | [], _ => True
  | .putbytes bytes :: as, c => wp (internalPutbytes bytes) (fun _ => FindsInput b as) (fun _ _ => True) c
  | .flush :: as, c => wp internalFlush (fun _ => FindsInput b as) (fun _ _ => True) c
  | .copyRead :: as, c =>
      (0 < c.pqBufferRemainingData ∨ c.sockfiles = true) ∧ ∀ c', c.copyRead b = some c' → FindsInput b as c'

/-- Actions that read no message always find their input. -/
theorem findsInput_of_reads {as : List Action} (hreads : as.count .copyRead = 0) (c : Comm) : FindsInput b as c := by
  induction as generalizing c with
  | nil => trivial
  | cons a as ih =>
      rw [List.count_cons, Nat.add_eq_zero_iff] at hreads
      cases a with
      | putbytes bytes => exact wp_mono (wp_true _ c) (fun _ c' _ => ih hreads.1 c') fun _ _ h => h
      | flush => exact wp_mono (wp_true _ c) (fun _ c' _ => ih hreads.1 c') fun _ _ h => h
      | copyRead => simp at hreads

/-- Actions whose readers find their input leave no more than there was. -/
theorem leaves_runActions {source : Source} {as : List Action} {n : ℕ} {s : State σ} (hs : AtMost n s)
    (hfinds : FindsInput b as s.comm) : LeavesAtMost n (runActions b source as) s := by
  induction as generalizing s with
  | nil => exact hs
  | cons a as ih =>
      rw [runActions, LeavesAtMost, wp_bind]
      cases a with
      | putbytes bytes =>
          have hput : wp (runAction b source (.putbytes bytes)) (fun _ s' => FindsInput b as s'.comm)
              (fun _ _ => True) s := by
            rw [runAction, wp_bind, wp_liftComm]
            exact wp_mono hfinds (fun _ _ h => h) fun _ _ _ => trivial
          refine wp_mono (wp_and hput ((sends_putbytes source bytes).leaves hs)) ?_ fun _ _ h => h.2
          exact fun _ s₁ h₁ => ih h₁.2 h₁.1
      | flush =>
          have hflush : wp (runAction b source .flush) (fun _ s' => FindsInput b as s'.comm)
              (fun _ _ => True) s := by
            rw [runAction, wp_liftComm]
            exact wp_mono hfinds (fun _ _ h => h) fun _ _ _ => trivial
          refine wp_mono (wp_and hflush (SendMoves.leaves sends_flush hs)) ?_ fun _ _ h => h.2
          exact fun _ s₁ h₁ => ih h₁.2 h₁.1
      | copyRead =>
          -- the reader finds its input, so `pq_startmsgread` does not point at the memory area again
          have hsame : s.comm.toRead b = s.comm.unread.length := length_unread_startmsgread hfinds.1
          have hread : LeavesAtMost n (copyRead b) s := by
            refine wp_mono (leaves_copyRead s) (fun _ s₁ h₁ => ?_) fun _ s₁ h₁ => ?_
            · exact (h₁.trans hsame.le).trans hs
            · exact (h₁.trans hsame.le).trans hs
          refine wp_mono (wp_and (copyRead_comm s) hread) ?_ fun _ _ h => h.2
          exact fun _ s₁ h₁ => ih h₁.2 (hfinds.2 _ h₁.1)

/-- The end of a response only sends. -/
theorem sends_settle (r : Response σ) : SendMoves (settle r) := by
  apply performs_settle
  · exact fun _ => .control (by constructor <;> rfl)
  · exact fun e => sends_ereport e.errcode e.errmsg

/-- A response that finds its input leaves no more to read than there is. -/
theorem leaves_respond {source : Source} {r : Response σ} {n : ℕ} {s : State σ} (hs : AtMost n s)
    (hfinds : s.whereToSendOutput = .remote → FindsInput b r.actions s.comm) :
    LeavesAtMost n (respond b source r) s := by
  apply wp_respond
  · intro hremote
    refine wp_mono (leaves_runActions hs (hfinds hremote)) (fun _ s₁ h₁ => ?_) fun _ _ h => h
    exact (sends_settle r).leaves h₁
  · exact fun _ => (sends_settle r).leaves hs

/-- The protocol switch leaves no more to read than there was, and without a message it closes the connection. -/
theorem leaves_protoSwitch {firstchar : Option FrontendMsg} {n : ℕ} {s : State σ} (hs : AtMost n s)
    (hfinds : ∀ m, firstchar = some m → s.whereToSendOutput = .remote →
      FindsInput b (B.exec s.db m s.inBuf).actions s.comm) :
    LeavesAtMost n (protoSwitch b B firstchar) s := by
  have hclose : KeepsInput (do
      closeConnection
      pure true : PgM σ Bool) := performs_bind (keepsInput_modify fun _ => rfl) fun _ => performs_pure _
  have hdefer : SendMoves (do
      deferReadyForQuery
      pure false : PgM σ Bool) :=
    performs_bind (sends_modify fun _ => by constructor <;> rfl) fun _ => performs_pure _
  rw [protoSwitch, LeavesAtMost, wp_bind, wp_record, wp_bind, wp_get]
  cases firstchar with
  | none => exact hclose.leaves hs
  | some m =>
      have hmessage := hfinds m rfl
      rw [wp_bind, wp_record]
      cases m with
      | query | functionCall | sync | parse =>
          refine leaves_bind (leaves_respond hs hmessage) fun _ s₁ h₁ => ?_
          exact h₁
      | bind | execute | describe =>
          exact leaves_bind (leaves_respond hs hmessage) fun _ s₁ h₁ => SendMoves.leaves hdefer h₁
      | close =>
          refine leaves_bind (leaves_respond hs hmessage) fun _ s₁ h₁ => ?_
          rw [LeavesAtMost, wp_bind, wp_get]
          dsimp only
          split_ifs
          · exact leaves_bind ((sends_putmessage _ _ _).leaves h₁) fun _ s₂ h₂ => SendMoves.leaves hdefer h₂
          · exact SendMoves.leaves hdefer h₁
      | flush =>
          have hflush : SendMoves (do
              liftComm internalFlush
              pure false : PgM σ Bool) := performs_bind sends_flush fun _ => performs_pure _
          dsimp only
          split_ifs
          · exact (sends_ereport _ _).leaves hs
          · exact SendMoves.leaves hflush hs
          · exact hs
      | terminate => exact hclose.leaves hs
      | copyData | copyDone | copyFail => exact hs

/-! ## A round of the loop -/

/-- `SocketBackend` hands over a message only if it took at least its type byte. -/
theorem socketBackend_reads (s : State σ) :
    wp (socketBackend b B) (fun firstchar s' => AtMost (s.comm.toRead b) s' ∧
        (firstchar.isSome → s'.comm.unread.length < s.comm.toRead b))
      (fun _ => AtMost (s.comm.toRead b)) s := by
  rw [socketBackend, wp_bind, wp_record, wp_bind, wp_liftComm]
  rcases Bool.eq_false_or_eq_true s.comm.pqCommReadingMsg with hreading | hreading
  · rw [wp_of_error (pqStartmsgread_reading hreading)]
    exact atMost_toRead b s
  rw [wp_of_ok (pqStartmsgread_eq hreading), wp_bind, wp_liftRecv]
  -- without a type byte there is no message; with one there is less to read from here on
  have hbyte := length_unread_pqGetbyte b (s.comm.startmsgread b)
  generalize pqGetbyte b (s.comm.startmsgread b) = r at hbyte
  obtain ⟨_ | t, c⟩ := r
  · rw [wp_bind, wp_get]
    have hnone : (none : Option FrontendMsg).isSome → c.unread.length < s.comm.toRead b := fun h => by cases h
    split_ifs
    · exact ⟨hbyte, hnone⟩
    · exact ⟨hbyte, hnone⟩
  have htaken : c.unread.length < s.comm.toRead b := hbyte
  dsimp only
  cases FrontendMsg.ofCode t with
  | none => exact htaken.le
  | some m =>
      rw [wp_bind, wp_modify, wp_bind, wp_liftRecv]
      have hmessage := (length_unread_pqGetmessage b m.maxlen c).trans_lt htaken
      dsimp only
      generalize pqGetmessage b m.maxlen c = r at hmessage
      obtain ⟨_ | body, c'⟩ := r
      · exact ⟨hmessage.le, fun _ => hmessage⟩
      · exact ⟨hmessage.le, fun _ => hmessage⟩

/-- The loop has more to do only if there is data in the buffer. -/
def GoesOnWithInput (s : State σ) : Prop := s.pipelining = true → 0 < s.comm.pqBufferRemainingData

/-- What a round of the loop goes on with: a message that was taken from the input, or the line of the repl. -/
structure Fetched (n : ℕ) (firstchar : Option FrontendMsg) (s : State σ) : Prop where
  most : AtMost n s
  goesOn : GoesOnWithInput s
  taken : ∀ m, firstchar = some m → s.comm.unread.length < n ∨ m = .query ∧ s.pipelining = false

/-- A round fetches its next message from what a message that starts can read. -/
theorem nextMessage_fetched {s : State σ} (hrepl : s.isWire = false → s.pipelining = false) :
    wp (nextMessage b B) (Fetched (s.comm.toRead b)) (fun _ => AtMost (s.comm.toRead b)) s := by
  rw [nextMessage, wp_bind, wp_get]
  split_ifs with hwire
  · rw [wp_bind]
    refine wp_mono (socketBackend_reads s) ?_ fun _ _ h => h
    rintro firstchar s₁ ⟨hmost, htaken⟩
    exact ⟨hmost, fun hpipe => of_decide_eq_true hpipe, fun m hm => .inl (htaken (by simp [hm]))⟩
  · have hnot : s.pipelining = false := hrepl (by simpa using hwire)
    refine ⟨atMost_toRead b s, fun hpipe => ?_, fun m hm => .inr ⟨(Option.some.inj hm).symm, hnot⟩⟩
    exact absurd (hnot.symm.trans hpipe) (by decide)

/-- The loop goes on behind a message only with data in the buffer. -/
theorem betweenMessages_goesOn (s : State σ) :
    wp (betweenMessages B) (fun _ => GoesOnWithInput) (fun _ _ => True) s := by
  rw [betweenMessages, wp_bind, wp_get]
  split_ifs with hpipe
  · rw [wp_bind, wp_modify, wp_bind, wp_get, wp_bind, wp_get]
    split_ifs with hmore
    · have hdata : 0 < s.comm.pqBufferRemainingData := of_decide_eq_true (Bool.and_eq_true _ _ ▸ hmore).1
      have hready : KeepsInput (do
          readyForQuery B s.whereToSendOutput
          modify fun s => { s with sendReadyForQuery := false } : PgM σ Unit) :=
        performs_bind (keepsInput_of_sends (raises_readyForQuery B _).sends) fun _ => keepsInput_modify fun _ => rfl
      rw [wp_bind, wp_get]
      exact wp_mono (KeepsInput.spec hready _) (fun _ s₁ h₁ _ => hdata.trans_eq h₁.symm) fun _ _ _ => trivial
    · exact fun hpipe' => of_decide_eq_true hpipe'
  · exact fun hpipe' => absurd hpipe' hpipe

/-- Where a round leads: behind a message on with the loop, or out of it. -/
def RoundEnds (n : ℕ) (l : Label) (s : State σ) : Prop :=
  AtMost n s ∧ (l = .loop ∧ GoesOnWithInput s ∧ (s.pipelining = true → s.comm.unread.length < n) ∨
    l = .resumeOnError ∨ l = .wireFlush)

/-- The line of the repl does not begin to pipeline. -/
theorem query_pipelining (s : State σ) :
    wp (protoSwitch b B (some .query)) (fun _ s' => s'.pipelining = s.pipelining)
      (fun _ s' => s'.pipelining = s.pipelining) s := by
  have hsees : SeesControl (fun _ => True) fun s s' : State σ => s'.pipelining = s.pipelining :=
    ⟨fun _ _ => rfl, fun _ _ _ => rfl, fun _ _ => rfl⟩
  have hquery : Performs (fun s s' : State σ => s'.pipelining = s.pipelining) (protoSwitch b B (some .query)) := by
    refine performs_bind (hsees.record trivial) fun _ => performs_bind performs_get fun s => ?_
    refine performs_bind (hsees.record trivial) fun _ => ?_
    refine performs_bind (hsees.respond (fun _ _ => trivial) fun _ => rfl) fun _ => ?_
    exact performs_bind (performs_modify fun _ => rfl) fun _ => performs_pure _
  exact hquery.keeps (fun _ _ hs hstep => hstep.trans hs) rfl

/-- The end of a round only sends. -/
theorem sends_betweenMessages : SendMoves (betweenMessages B) := by
  refine performs_bind performs_get fun s => performs_ite ?_ (performs_pure _)
  refine performs_bind (sends_modify fun _ => by constructor <;> rfl) fun _ => ?_
  refine performs_bind performs_get fun s => performs_bind performs_get fun s' => ?_
  refine performs_ite ?_ (performs_pure _)
  refine performs_bind performs_get fun s => performs_bind (raises_readyForQuery B _).sends fun _ => ?_
  exact sends_modify fun _ => by constructor <;> rfl

/-- Acting on what was fetched goes on with the loop only if there is less to read. -/
theorem actOn_ends {firstchar : Option FrontendMsg} {n : ℕ} {s : State σ} (h : Fetched n firstchar s)
    (hfinds : ∀ m, firstchar = some m → s.whereToSendOutput = .remote →
      FindsInput b (B.exec s.db m s.inBuf).actions s.comm) :
    wp (actOn b B firstchar) (RoundEnds n) (fun _ => AtMost n) s := by
  rw [actOn, wp_bind, wp_get]
  cases firstchar with
  | none =>
      rw [Option.any_none, Bool.and_false, if_neg (by decide), wp_bind, protoSwitch, wp_bind, wp_record, wp_bind,
        wp_get, wp_bind, closeConnection, wp_modify, wp_pure, if_pos rfl]
      exact ⟨h.most, .inr (.inr rfl)⟩
  | some m =>
      split_ifs
      · -- `ignore_till_sync` skips the message, but it was taken from the input
        refine ⟨h.most, .inl ⟨rfl, h.goesOn, fun hpipe => ?_⟩⟩
        apply (h.taken m rfl).resolve_right
        rintro ⟨-, hnot⟩
        exact absurd (hnot.symm.trans hpipe) (by decide)
      rw [wp_bind]
      rcases h.taken m rfl with hless | ⟨rfl, hnot⟩
      · -- the message was taken from the input
        have hswitch : LeavesAtMost s.comm.unread.length (protoSwitch b B (some m)) s :=
          leaves_protoSwitch (le_refl _) hfinds
        refine wp_mono hswitch ?_ fun _ s₁ h₁ => le_trans h₁ h.most
        intro shortcut s₁ h₁
        have hmost : AtMost n s₁ := le_trans h₁ h.most
        split_ifs
        · exact ⟨hmost, .inr (.inr rfl)⟩
        rw [wp_bind]
        refine wp_mono (wp_and (sends_betweenMessages.leaves h₁) (betweenMessages_goesOn s₁)) ?_ ?_
        · rintro _ s₂ ⟨h₂, hgoesOn⟩
          exact ⟨le_trans h₂ h.most, .inl ⟨rfl, hgoesOn, fun _ => lt_of_le_of_lt h₂ hless⟩⟩
        · exact fun _ s₂ h₂ => le_trans h₂.1 h.most
      · -- the repl leaves the loop behind its line
        refine wp_mono (wp_and (leaves_protoSwitch h.most hfinds) (query_pipelining s)) ?_ fun _ _ h₁ => h₁.1
        rintro shortcut s₁ ⟨h₁, hpipe⟩
        split_ifs
        · exact ⟨h₁, .inr (.inr rfl)⟩
        have hnot₁ : ¬s₁.pipelining = true := by simp [hpipe, hnot]
        rw [wp_bind, betweenMessages, wp_bind, wp_get, if_neg hnot₁]
        exact ⟨h₁, .inl ⟨rfl, fun h' => absurd h' hnot₁, fun h' => absurd h' hnot₁⟩⟩

/-- The readers of the message that a round of the loop dispatches find their input. -/
def FindsMessages (b : Build) (B : Backend σ) : Label → State σ → Prop
  | .loop, s => wp (nextMessage b B) (fun firstchar s' => ∀ m, firstchar = some m → s'.whereToSendOutput = .remote →
      FindsInput b (B.exec s'.db m s'.inBuf).actions s'.comm) (fun _ _ => True) s.round
  | .incoming, _ | .resumeOnError, _ | .wireFlush, _ | .returnEarly, _ => True

/-- A backend that reads no messages always finds its input. -/
theorem findsMessages_of_reads (hreads : ∀ d m body, (B.exec d m body).reads = 0) (l : Label) (s : State σ) :
    FindsMessages b B l s := by
  cases l with
  | incoming | resumeOnError | wireFlush | returnEarly => trivial
  | loop =>
      refine wp_mono (wp_true _ _) ?_ fun _ _ h => h
      exact fun firstchar s' _ m _ _ => findsInput_of_reads (hreads _ _ _) _

/-- The first lines of a round leave the connection alone. -/
theorem round_comm (s : State σ) : s.round.comm = s.comm := by
  unfold State.round
  split_ifs <;> rfl

/-- **A round of the loop leaves less to read, or it leaves the loop.** -/
theorem loopRound_ends {s : State σ} (hmode : s.HasMode) (hfinds : FindsMessages b B .loop s) :
    wp (loopRound b B) (RoundEnds (s.comm.toRead b)) (fun _ => AtMost (s.comm.toRead b)) s := by
  have hrepl : s.round.isWire = false → s.round.pipelining = false := by
    intro hwire
    unfold State.round at hwire ⊢
    split_ifs at hwire ⊢ with h
    · rfl
    · exact absurd (hmode.resolve_left (by simp [hwire])) h
  apply (wp_of_eq (loopRound_eq b B s)).mpr
  rw [← round_comm s]
  split_ifs
  · rw [wp_bind]
    exact wp_mono (leaves_startupAuth s.round) (fun _ s₁ h₁ => ⟨h₁, .inr (.inl rfl)⟩) fun _ _ h => h
  · rw [wp_bind]
    exact wp_mono (leaves_startupPass s.round) (fun _ s₁ h₁ => ⟨h₁, .inr (.inl rfl)⟩) fun _ _ h => h
  · rw [wp_bind]
    refine wp_mono (wp_and (nextMessage_fetched hrepl) hfinds) ?_ fun _ _ h => h.1
    exact fun firstchar s₁ h₁ => actOn_ends h₁.1 h₁.2

/-! ## Errors -/

/-- The last ReadyForQuery of a reply raises no error. -/
theorem throws_lastReadyForQuery : Throws (· ≠ .error) (lastReadyForQuery B) := by
  have hready : Throws (· ≠ .error) (readyForQuery B .remote) := by
    refine throws_bind (throws_modify _) fun _ => throws_ite ?_ (throws_pure _)
    refine throws_bind throws_get fun s => throws_bind (throws_putmessage _ _ _) fun _ => ?_
    exact throws_liftComm (throws_modify _)
  exact throws_bind throws_get fun s => throws_ite (throws_bind hready fun _ => throws_modify _) (throws_pure _)

/-- A failed delivery leaves no notification pending. -/
theorem processNotifyInterrupt_error (hnotify : ∀ d, (B.processNotify d).notify = false) (s : State σ) :
    wp (processNotifyInterrupt b B) (fun _ _ => True)
      (fun e s' => e = .error → s'.notifyInterruptPending = false) s := by
  have hsees : SeesControl (fun _ => True) fun s s' : State σ =>
      s.notifyInterruptPending = false → s'.notifyInterruptPending = false :=
    ⟨fun _ _ => id, fun _ _ _ => id, fun _ _ => id⟩
  rw [processNotifyInterrupt, wp_bind, wp_record, wp_bind, wp_get]
  split_ifs
  · rw [wp_bind, wp_modify, wp_bind, wp_get]
    have hrespond : Performs (fun s s' : State σ => s.notifyInterruptPending = false → s'.notifyInterruptPending = false)
        (respond b .notification (B.processNotify s.db)) := by
      apply hsees.respond
      · exact fun _ _ => trivial
      · intro s h
        rw [hnotify, Bool.or_false]
        exact h
    have hkept := hrespond.keeps (I := fun s => s.notifyInterruptPending = false) (fun _ _ hs hstep => hstep hs)
      (s := { s with trace := s.trace ++ [.raising .processNotifyInterrupt], notifyInterruptPending := false }) rfl
    exact wp_mono hkept (fun _ _ _ => trivial) fun _ _ h _ => h
  · trivial

/-- Of the end of the reply only the delivery of pending notifications raises an error. -/
theorem wireFlush_error (hnotify : ∀ d, (B.processNotify d).notify = false) (s : State σ) :
    wp (wireFlush b B) (fun _ _ => True)
      (fun e s' => e = .error → s.notifyInterruptPending = true ∧ s'.notifyInterruptPending = false) s := by
  have hend : ∀ s', wp (lastReadyForQuery B) (fun _ => wp handOver (fun _ _ => True) fun e _ => e ≠ .error)
      (fun e _ => e ≠ .error) s' :=
    fun s' => wp_mono (throws_lastReadyForQuery s') (fun _ s'' _ => throws_handOver s'') fun _ _ h => h
  have hfinish : ∀ s', s'.notifyInterruptPending = s.notifyInterruptPending →
      wp (finishReply b B) (fun _ => wp handOver (fun _ _ => True) fun e _ => e ≠ .error)
        (fun e s'' => e = .error → s.notifyInterruptPending = true ∧ s''.notifyInterruptPending = false) s' := by
    intro s' hsame
    rw [finishReply, wp_bind, wp_get]
    split_ifs
    · rw [wp_bind, wp_get]
      dsimp only
      split_ifs with hpending
      · rw [wp_bind]
        refine wp_mono (processNotifyInterrupt_error hnotify s') ?_ ?_
        · exact fun _ s₁ _ => wp_mono (hend s₁) (fun _ _ h => h) fun _ _ h he => absurd he h
        · exact fun _ s₁ h he => ⟨hsame.symm.trans hpending, h he⟩
      · exact wp_mono (hend s') (fun _ _ h => h) fun _ _ h he => absurd he h
    · exact throws_handOver s'
  rw [wireFlush, wp_bind, wp_record, wp_bind]
  refine wp_mono (hfinish _ rfl) ?_ fun _ _ h => h
  exact fun _ s₁ h => wp_mono h (fun _ _ h => h) fun _ _ h he => absurd he h

/-- Behind an error with input left the handler counts and starts the loop again, and it gives up at the tenth;
without input it goes to `wire_flush`. -/
theorem handler_goesOn (s : State σ) :
    wp (handler b B) (fun l s' => s'.comm.recvSide = s.comm.recvSide ∧
        s'.notifyInterruptPending = s.notifyInterruptPending ∧
        (l = .incoming ∧ 0 < s.comm.pqBufferRemainingData ∧ s.canaryEx ≤ 8 ∧ s'.canaryEx = s.canaryEx + 1 ∨
          l = .wireFlush ∧ s'.canaryEx = s.canaryEx)) (fun _ _ => True) s := by
  have hsees : SeesControl (fun _ => True) fun s s' : State σ =>
      s'.notifyInterruptPending = s.notifyInterruptPending :=
    ⟨fun _ _ => rfl, fun _ _ _ => rfl, fun _ _ => rfl⟩
  have hpending : Performs (fun s s' : State σ => s'.notifyInterruptPending = s.notifyInterruptPending)
      (clearError B) := by
    apply performs_clearError
    · exact hsees.emitErrorReport (puts_any B)
    · exact fun _ => rfl
    · exact fun _ => rfl
    · exact fun _ => rfl
  have hclear := fun s₀ : State σ => wp_and ((keepsInput_of_sends (sends_clearError B)).recvSide s₀)
    (wp_and (hpending.keeps (I := fun s' => s'.notifyInterruptPending = s₀.notifyInterruptPending)
      (fun _ _ hs hstep => hstep.trans hs) rfl) ((keepsModes_clearError B).spec s₀))
  rw [handler, wp_bind, wp_modify, wp_bind]
  refine wp_mono (hclear _) ?_ fun _ _ _ => trivial
  rintro _ s₁ ⟨hside, hsame, hmodes⟩
  rw [wp_bind, wp_get]
  split_ifs with hdata
  · rw [wp_bind, wp_get]
    split_ifs with hmany
    · trivial
    · rw [remaining_of_recvSide hside] at hdata
      rw [wp_bind, wp_modify, wp_pure]
      refine ⟨hside, hsame, .inl ⟨rfl, hdata, ?_, congrArg (· + 1) hmodes.canary⟩⟩
      rw [← hmodes.canary]
      exact Nat.not_lt.mp hmany
  · exact ⟨hside, hsame, .inr ⟨rfl, hmodes.canary⟩⟩

/-! ## The rank -/

/-- What errors can still cost: the errors that the handler starts the loop again for, and a pending notification. -/
def State.credit (s : State σ) : ℕ := 5 * (9 - s.canaryEx) + if s.notifyInterruptPending then 1 else 0

/-- The rank at the head of the loop. -/
def State.loopRank (b : Build) (s : State σ) : ℕ :=
  if s.pipelining then 2 * s.comm.toRead b + s.credit + 6 else 2 * s.comm.unread.length + s.credit + 4

/-- The steps that a call can still take from a label. -/
def Label.rank (b : Build) : Label → State σ → ℕ
  | .incoming, s => s.loopRank b + 1
  | .loop, s => s.loopRank b
  | .resumeOnError, s => 2 * s.comm.unread.length + s.credit + 3
  | .wireFlush, s => 2 * s.comm.unread.length + s.credit + 2
  | .returnEarly, _ => 1

/-- The rank of a configuration; outside a call no step is left. -/
def Config.rank (b : Build) : Config σ → ℕ
  | .inside l s => l.rank b s
  | .idle _ | .stopped _ _ => 0

/-- Whether a call is going on. -/
def Config.inCall : Config σ → Bool
  | .inside _ _ => true
  | .idle _ | .stopped _ _ => false

/-- The credit is five labels for each error that the call may still count, and one. -/
theorem credit_le (s : State σ) : s.credit ≤ 5 * (9 - s.canaryEx) + 1 := by
  unfold State.credit
  split_ifs <;> omega

/-- The credit is at least five labels for each error that the call may still count. -/
theorem le_credit (s : State σ) : 5 * (9 - s.canaryEx) ≤ s.credit := Nat.le_add_right _ _

/-- With data in the buffer a message starts with what there is. -/
theorem loopRank_le {s : State σ} (h : GoesOnWithInput s) :
    s.loopRank b ≤ 2 * s.comm.unread.length + s.credit + 6 := by
  unfold State.loopRank
  split_ifs with hpipe
  · rw [Comm.toRead, length_unread_startmsgread (.inl (h hpipe))]
  · omega

/-- At every label the rank is positive. -/
theorem rank_pos (l : Label) (s : State σ) : 0 < l.rank b s := by
  cases l with
  | incoming | resumeOnError | wireFlush | returnEarly => exact Nat.succ_pos _
  | loop =>
      show 0 < s.loopRank b
      unfold State.loopRank
      split_ifs <;> exact Nat.succ_pos _

/-- The rank is linear in what there is to read. -/
theorem rank_le (l : Label) (s : State σ) : l.rank b s ≤ 2 * s.comm.toRead b + 53 := by
  have hcredit := credit_le s
  have hread := atMost_toRead b s
  unfold AtMost at hread
  have hloop : s.loopRank b ≤ 2 * s.comm.toRead b + 52 := by
    unfold State.loopRank
    split_ifs <;> omega
  cases l <;> simp only [Label.rank] <;> omega

/-- Whichever way the handler goes on, it costs no more than the reply to what is left to read. -/
theorem handler_rank {n : ℕ} {s : State σ} (hs : AtMost n s) :
    wp (handler b B) (fun l s' => l.rank b s' ≤ 2 * n + s.credit + 2) (fun _ _ => True) s := by
  refine wp_mono (handler_goesOn s) ?_ fun _ _ h => h
  rintro l s₁ ⟨hside, hpending, hway⟩
  have hmost : AtMost n s₁ := (length_unread_of_recvSide hside).le.trans hs
  unfold AtMost at hmost
  rcases hway with ⟨rfl, hdata, hfew, hcount⟩ | ⟨rfl, hcount⟩
  · have hinput : GoesOnWithInput s₁ := fun _ => hdata.trans_eq (remaining_of_recvSide hside).symm
    have hloop := loopRank_le (b := b) hinput
    have hcredit : s₁.credit + 5 = s.credit := by
      unfold State.credit
      rw [hpending, hcount]
      omega
    show s₁.loopRank b + 1 ≤ _
    omega
  · have hcredit : s₁.credit = s.credit := by
      unfold State.credit
      rw [hpending, hcount]
    show 2 * s₁.comm.unread.length + s₁.credit + 2 ≤ _
    omega

/-- **Step lemma**: every step of a call lowers the rank. -/
theorem step_rank (hreads : ∀ d, (B.processNotify d).reads = 0) (hnotify : ∀ d, (B.processNotify d).notify = false)
    {l : Label} {s : State σ} (hmode : s.HasMode) (hfinds : FindsMessages b B l s) :
    wp (step b B l) (fun next s' => ∀ l', next = some l' → l'.rank b s' < l.rank b s) (fun _ _ => True) s := by
  rw [wp_step]
  -- behind an error the handler goes on with less than `k`
  have herror : ∀ {n : ℕ} {s' : State σ} {k : ℕ} (e : Stop), AtMost n s' → (e = .error → 2 * n + s'.credit + 2 < k) →
      (if e = .error ∧ s'.armed = true then
        wp (handler b B) (fun l' s'' => ∀ l'', some l' = some l'' → l''.rank b s'' < k) (fun _ _ => True) s'
      else True) := by
    intro n s' k e hmost hless
    split_ifs with h
    refine wp_mono (handler_rank (b := b) hmost) ?_ fun _ _ h => h
    rintro l' s'' hrank l'' ⟨⟩
    exact hrank.trans_lt (hless h.1)
  cases l with
  | incoming =>
      rw [block]
      split_ifs
      · rw [wp_bind, wp_modify, wp_bind, wp_record, wp_pure]
        rintro l' ⟨⟩
        exact Nat.lt_succ_self _
      · rintro l' ⟨⟩
        exact Nat.lt_succ_self _
  | loop =>
      rw [block, wp_bind, wp_get]
      split_ifs with hpipe
      · have hrank : Label.rank b .loop s = 2 * s.comm.toRead b + s.credit + 6 := if_pos hpipe
        have hcanary : ∀ s' : State σ, SameModes s s' → s'.credit ≤ s.credit + 1 := by
          intro s' hsame
          have hupper := credit_le s'
          have hlower := le_credit s
          rw [hsame.canary] at hupper
          omega
        rw [wp_bind, hrank]
        refine wp_mono (wp_and (loopRound_ends hmode hfinds) (loopRound_modes B s)) ?_ ?_
        · rintro l' s₁ ⟨⟨hmost, hway⟩, hmodes⟩ l'' ⟨⟩
          have hcredit := hcanary s₁ hmodes
          unfold AtMost at hmost
          rcases hway with ⟨rfl, hgoesOn, hless⟩ | rfl | rfl
          · show s₁.loopRank b < _
            by_cases hpipe₁ : s₁.pipelining = true
            · have hloop := loopRank_le (b := b) hgoesOn
              have hread := hless hpipe₁
              omega
            · have hloop : s₁.loopRank b = 2 * s₁.comm.unread.length + s₁.credit + 4 := if_neg hpipe₁
              omega
          · show 2 * s₁.comm.unread.length + s₁.credit + 3 < _
            omega
          · show 2 * s₁.comm.unread.length + s₁.credit + 2 < _
            omega
        · rintro e s₁ ⟨hmost, hmodes⟩
          have hcredit := hcanary s₁ hmodes
          exact herror e hmost fun _ => by omega
      · have hrank : Label.rank b .loop s = 2 * s.comm.unread.length + s.credit + 4 := if_neg hpipe
        rintro l' ⟨⟩
        rw [hrank]
        exact Nat.lt_succ_self _
  | resumeOnError =>
      rw [block, wp_bind, wp_get]
      split_ifs
      · rw [wp_bind, wp_record, wp_pure]
        rintro l' ⟨⟩
        show 1 < 2 * s.comm.unread.length + s.credit + 3
        omega
      · rintro l' ⟨⟩
        exact Nat.lt_succ_self _
  | wireFlush =>
      have hflush : KeepsInput (wireFlush b B) :=
        performs_bind (keepsInput_modify fun _ => rfl) fun _ =>
          performs_bind (keepsInput_of_sends (sends_finishReply B hreads)) fun _ => keepsInput_handOver
      have hmodes := block_modes B (b := b) s (l := .wireFlush) (by decide)
      rw [block, wp_bind] at hmodes ⊢
      have hboth := wp_and (hflush.leaves (le_refl s.comm.unread.length)) (wp_and (wireFlush_error hnotify s) hmodes)
      refine wp_mono hboth ?_ ?_
      · rintro _ s₁ - l' ⟨⟩
        show 1 < 2 * s.comm.unread.length + s.credit + 2
        omega
      · rintro e s₁ ⟨hmost, hpending, hsame⟩
        refine herror e hmost fun he => ?_
        obtain ⟨hbefore, hafter⟩ := hpending he
        have hcredit : s₁.credit + 1 = s.credit := by
          unfold State.credit
          rw [hbefore, hafter, hsame.canary]
          simp
        show _ < 2 * s.comm.unread.length + s.credit + 2
        omega
  | returnEarly =>
      rw [block, wp_bind, returnEarly, wp_modify, wp_pure]
      rintro l' ⟨⟩

/-! ## The run -/

/-- **Every call comes to an end.** If the message readers of the backend find their input, a call of a run ends
within a number of steps that is linear in what there is to read. -/
theorem call_ends {db : σ} {is : List HostStep} {c : Config σ} (hreads : ∀ d, (B.processNotify d).reads = 0)
    (hnotify : ∀ d, (B.processNotify d).notify = false)
    (hrun : Reaches (Machine b B) (.idle (State.boot db)) is c)
    (hfinds : ∀ n l s, Path (Machine b B) c (List.replicate n .code) (.inside l s) → FindsMessages b B l s) :
    ∃ n ≤ 2 * c.state.comm.toRead b + 53, ∃ c', Path (Machine b B) c (List.replicate n .code) c' ∧
      c'.inCall = false := by
  have hstep : ∀ d : Config σ, (d.state.HasMode ∧ ∃ n, Path (Machine b B) c (List.replicate n .code) d) →
      ¬d.inCall = false → ∃ d', Machine b B d .code d' ∧
        (d'.state.HasMode ∧ ∃ n, Path (Machine b B) c (List.replicate n .code) d') ∧ d'.rank b < d.rank b := by
    rintro d ⟨hmode, n, hpath⟩ hin
    cases d with
    | idle s => exact absurd rfl hin
    | stopped e s => exact absurd rfl hin
    | inside l s =>
        have hlower : (continued b B l s).rank b < l.rank b s := by
          apply continued_spec (P := fun d => d.rank b < l.rank b s)
          refine wp_mono (step_rank hreads hnotify hmode (hfinds n l s hpath)) (fun next s' h => ?_) fun e s' _ => ?_
          · cases next with
            | none => exact rank_pos l s
            | some l' => exact h l' rfl
          · split_ifs
            · exact rank_pos l s
            · exact rank_pos l s
        have hpath' := hpath.snoc (.code (l := l) (s := s))
        rw [← List.replicate_succ'] at hpath'
        exact ⟨_, .code, ⟨continued_hasMode B l hmode, n + 1, hpath'⟩, hlower⟩
  -- every step inside the call lowers the rank, and it stays on a path from `c`, where `hfinds` speaks
  obtain ⟨n, hn, c', hpath, hend⟩ := exists_path_of_rank hstep ⟨has_mode B hrun, 0, .nil⟩
  refine ⟨n, hn.trans ?_, c', hpath, hend⟩
  cases c with
  | inside l s => exact rank_le l s
  | idle s => exact Nat.zero_le _
  | stopped e s => exact Nat.zero_le _

/-- The call of a Query packet leaves its code within the bound. -/
theorem call_ends_query :
    let c := entered Build.emscripten Backend.silent ((State.boot ()).request .cma [81, 0, 0, 0, 5, 0])
    ∃ n ≤ 2 * c.state.comm.toRead .emscripten + 53, ∃ c',
      Path (Machine .emscripten Backend.silent) c (List.replicate n .code) c' ∧ c'.inCall = false :=
  call_ends (fun _ => rfl) (fun _ => rfl) (.snoc .nil (.request .cma _)) fun _ l s _ =>
    findsMessages_of_reads (fun _ _ _ => rfl) l s

end PgliteBuild
