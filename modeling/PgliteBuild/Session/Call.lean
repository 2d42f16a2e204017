import PgliteBuild.InteractiveOne.Calls
import PgliteBuild.Session.Simulation

/-! # A call answers its packet

A call made by an idle backend with a packet of complete messages plays the packet
(`call_packet`): it ends as `Session.play` says, and when it returns, its session is the one that the
packet leaves behind. A call that leaves no input behind leaves an idle backend (`Answered.idle`), so
that the theorem applies to runs of calls. -/

namespace PgliteBuild

open BlockMemory Effect Framing Jumps

variable {σ : Type} {b : Build} {B : Backend σ} {t : Transport} {n : ℕ} {u rest : List UInt8}
  {l : Locals} {S : Session σ} {s : State σ}

/-! ## Finishing the reply -/

/-- The delivery of notifications neither fails nor reads from the connection. -/
structure QuietNotify (B : Backend σ) : Prop where
  error : ∀ d, (B.processNotify d).error = none
  reads : ∀ d, (B.processNotify d).reads = 0

/-- A stateless backend delivers no notifications. -/
theorem quietNotify_stateless (answer : FrontendMsg → List UInt8 → List Action × Option ErrorReport) :
    QuietNotify (Backend.stateless answer) := ⟨fun _ => rfl, fun _ => rfl⟩

/-- Without the connection a response goes elsewhere. -/
theorem respond_silent_spec (source : Source) (r : Response σ) (h : Follows b t n u l S s)
    (hremote : S.remote = false) (herror : r.error = none) {post : Unit → State σ → Prop}
    {exn : Stop → State σ → Prop}
    (hpost : ∀ s', Follows b t n u l { S with
      db := r.next
      notifyInterruptPending := S.notifyInterruptPending || r.notify } s' → post () s') :
    wp (respond b source r) post exn s := by
  have hdest : ¬s.whereToSendOutput = .remote := by
    have hsession : decide (s.whereToSendOutput = .remote) = S.remote := congrArg Session.remote h.session
    rw [hremote] at hsession
    exact of_decide_eq_false hsession
  have hnotify : s.notifyInterruptPending = S.notifyInterruptPending :=
    congrArg Session.notifyInterruptPending h.session
  rw [respond, wp_bind, wp_get, if_neg hdest, wp_bind, wp_modify]
  simp only [herror]
  refine hpost _ ⟨?_, h.input, h.steady⟩
  rw [hnotify]
  exact congrArg (fun S' : Session σ => { S' with
    db := r.next
    notifyInterruptPending := S.notifyInterruptPending || r.notify }) h.session

/-- `ProcessNotifyInterrupt` for a pending notification. -/
theorem processNotifyInterrupt_spec (hquiet : QuietNotify B) (hpending : S.notifyInterruptPending = true)
    (h : Follows b t n u l S s) {post : Unit → State σ → Prop} {exn : Stop → State σ → Prop}
    (hpost : ∀ s', Follows b t n u l (S.notified B) s' → post () s') :
    wp (processNotifyInterrupt b B) post exn s := by
  have hdb : s.db = S.db := congrArg Session.db h.session
  rw [processNotifyInterrupt, wp_bind, wp_record, wp_bind, wp_get]
  rw [Session.notified, hpending, Bool.true_and] at hpost
  have hnote := h.note (e := .raising .processNotifyInterrupt) rfl
  by_cases hidle : B.blockState S.db = .idle
  · rw [if_pos (by simpa [hdb] using hidle), wp_bind, wp_modify, wp_bind, wp_get]
    rw [if_pos (by simpa using hidle)] at hpost
    have hstart : Follows b t n u l { S with notifyInterruptPending := false }
        { s with
          trace := s.trace ++ [.raising .processNotifyInterrupt]
          notifyInterruptPending := false } :=
      ⟨congrArg (fun S' : Session σ => { S' with notifyInterruptPending := false }) hnote.session,
        hnote.input, hnote.steady⟩
    show wp (respond b .notification (B.processNotify s.db)) post exn _
    have hresponse : B.processNotify s.db = B.processNotify S.db := by rw [hdb]
    rw [hresponse]
    by_cases hremote : S.remote = true
    · refine respond_spec .notification (B.processNotify S.db) [] (by simp) (hquiet.reads S.db) hstart
        hremote fun s' h' => ⟨fun _ => hpost s' ?_, fun e he => ?_⟩
      · rw [if_pos hremote]
        exact h'
      · rw [hquiet.error] at he
        cases he
    · have hsilent : S.remote = false := by simpa using hremote
      refine respond_silent_spec .notification _ hstart hsilent (hquiet.error S.db) fun s' h' =>
        hpost s' ?_
      rw [if_neg hremote, List.append_nil]
      exact h'
  · rw [if_neg (by simpa [hdb] using hidle)]
    rw [if_neg (by simpa using hidle)] at hpost
    exact hpost _ hnote

/-- The last ReadyForQuery of a packet. -/
theorem lastReadyForQuery_spec (h : Follows b t n u l S s) {post : Unit → State σ → Prop}
    {exn : Stop → State σ → Prop} (hpost : ∀ s', Follows b t n u l (S.between B true) s' → post () s') :
    wp (lastReadyForQuery B) post exn s := by
  have hready : s.sendReadyForQuery = S.sendReadyForQuery :=
    congrArg Session.sendReadyForQuery h.session
  rw [Session.between, Bool.true_and] at hpost
  rw [lastReadyForQuery, wp_bind, wp_get, hready]
  by_cases howed : S.sendReadyForQuery = true
  · rw [if_pos howed] at hpost ⊢
    rw [wp_bind]
    refine readyForQuery_spec h fun s₁ h₁ => ?_
    rw [wp_modify]
    refine hpost _ ⟨?_, h₁.input, h₁.steady⟩
    exact congrArg (fun S' : Session σ => { S' with sendReadyForQuery := false }) h₁.session
  · rw [if_neg howed] at hpost ⊢
    exact hpost s h

/-- What is left to put at the end of a packet. -/
theorem finishReply_spec (hquiet : QuietNotify B) (hauth : l.auth = false) (h : Follows b t n u l S s)
    {post : Unit → State σ → Prop} {exn : Stop → State σ → Prop}
    (hpost : ∀ s', Follows b t n u l (S.finished B) s' → post () s') :
    wp (finishReply b B) post exn s := by
  have hauth' : s.clientAuthInProgress = false := h.steady.2.2.1.trans hauth
  have hnotify : s.notifyInterruptPending = S.notifyInterruptPending :=
    congrArg Session.notifyInterruptPending h.session
  rw [finishReply, wp_bind, wp_get, if_pos (by simp [hauth']), wp_bind, wp_get, hnotify]
  by_cases hpending : S.notifyInterruptPending = true
  · rw [if_pos hpending, wp_bind]
    exact processNotifyInterrupt_spec hquiet hpending h fun s₁ h₁ => lastReadyForQuery_spec h₁ hpost
  · have hnone : S.notified B = S := by rw [Session.notified, if_neg (by simp [hpending])]
    rw [Session.finished, hnone] at hpost
    rw [if_neg hpending]
    exact lastReadyForQuery_spec h hpost

/-! ## Idle backends -/

/-- The backend between two calls of an authenticated wire client, with no input left behind. -/
structure Idle (B : Backend σ) (s : State σ) : Prop where
  wire : s.isWire = true
  repl : s.isRepl = false
  auth : s.clientAuthInProgress = false
  port : s.myProcPort = true
  canary : s.canaryEx = 0
  size : s.comm.cmaRsize = 0
  data : s.comm.socketData ≤ 0
  notReading : s.comm.pqCommReadingMsg = false
  drained : s.comm.pqBufferRemainingData = 0
  queryfp : s.comm.queryfp = none
  querylen : s.comm.querylen = 0
  /-- No notification is due before the packet is looked at. -/
  quiet : s.sendReadyForQuery = true → B.blockState s.db = .idle → s.notifyInterruptPending = false

/-- A backend that waits for the first packet after the handshake. -/
def State.waiting (db : σ) : State σ :=
  { State.boot db with
    isRepl := false
    whereToSendOutput := .remote
    sendReadyForQuery := false
    myProcPort := true
    sfConnected := 1 }

/-- The state that waits for a packet is idle. -/
theorem idle_waiting (B : Backend σ) (db : σ) : Idle B (State.waiting db) :=
  ⟨rfl, rfl, rfl, rfl, rfl, rfl, le_refl _, rfl, rfl, rfl, rfl, fun h => by cases h⟩

/-- What a call leaves behind that played its packet up to the session `S`, with `u` unread. -/
structure Answered (b : Build) (B : Backend σ) (t : Transport) (n : ℕ) (u : List UInt8) (S : Session σ)
    (s : State σ) : Prop where
  session : s.session = { S.finished B with canaryEx := 0 }
  wire : s.isWire = true
  repl : s.isRepl = false
  auth : s.clientAuthInProgress = false
  port : s.myProcPort = true
  size : s.comm.cmaRsize = 0
  data : s.comm.socketData ≤ 0
  notReading : s.comm.pqCommReadingMsg = false
  drained : u = [] →
    s.comm.pqBufferRemainingData = 0 ∧ s.comm.queryfp = none ∧ s.comm.querylen = 0
  unread : t = .cma → s.comm.unread = u

@[simp] theorem finished_sendReadyForQuery (B : Backend σ) (S : Session σ) :
    (S.finished B).sendReadyForQuery = false := by
  rw [Session.finished, Session.between]
  split_ifs with h
  · rfl
  · simpa using h

/-- A call that leaves no input behind leaves an idle backend. -/
theorem Answered.idle (h : Answered b B t n [] S s) : Idle B s where
  wire := h.wire
  repl := h.repl
  auth := h.auth
  port := h.port
  canary := congrArg Session.canaryEx h.session
  size := h.size
  data := h.data
  notReading := h.notReading
  drained := (h.drained rfl).1
  queryfp := (h.drained rfl).2.1
  querylen := (h.drained rfl).2.2
  quiet hready := by
    have hsession : s.sendReadyForQuery = (S.finished B).sendReadyForQuery :=
      congrArg Session.sendReadyForQuery h.session
    rw [finished_sendReadyForQuery, hready] at hsession
    cases hsession

/-- The hand-over does not touch what the session and the next call see. -/
theorem handedOver_frame (content : List UInt8) (s : State σ) :
    (s.handedOver content).session = s.session ∧
      (s.handedOver content).comm.recvSide = s.comm.recvSide ∧
      (s.handedOver content).comm.mem = s.comm.mem ∧
      (s.handedOver content).comm.socketData ≤ 0 ∧
      (s.handedOver content).isWire = s.isWire ∧ (s.handedOver content).isRepl = s.isRepl ∧
      (s.handedOver content).clientAuthInProgress = s.clientAuthInProgress ∧
      (s.handedOver content).myProcPort = s.myProcPort := by
  unfold State.handedOver
  split_ifs with hsock hdata hdata
  · refine ⟨?_, rfl, rfl, le_refl _, rfl, rfl, rfl, rfl⟩
    simp [State.session, Event.visible]
  · refine ⟨?_, rfl, rfl, not_lt.mp hdata, rfl, rfl, rfl, rfl⟩
    simp [State.session, Event.visible]
  · exact ⟨rfl, rfl, rfl, le_refl _, rfl, rfl, rfl, rfl⟩
  · exact ⟨rfl, rfl, rfl, not_lt.mp hdata, rfl, rfl, rfl, rfl⟩

/-- From `wire_flush` the call returns. -/
theorem ends_wireFlush (hquiet : QuietNotify B) (hauth : l.auth = false) (hlt : u.length < n)
    (h : Follows b t n u l S s) :
    ∃ s', Ends (step b B) .wireFlush s (.ok () s') ∧ Answered b B t n u S s' := by
  have hflush : wp (step b B .wireFlush) (fun next s' => next = some .returnEarly ∧
      ∃ s₀ content, s' = s₀.handedOver content ∧ Follows b t n u l (S.finished B) s₀)
      (fun _ _ => False) s := by
    rw [wp_step, block, wp_bind, wireFlush, wp_bind, wp_record, wp_bind]
    refine finishReply_spec hquiet hauth (h.note rfl) fun s₀ h₀ => ?_
    obtain ⟨content, hcontent⟩ := Option.isSome_iff_exists.mp h₀.input.file
    rw [wp_of_ok (handOver_eq hcontent), wp_pure]
    exact ⟨rfl, s₀, content, rfl, h₀⟩
  obtain ⟨next, s₁, hblock, rfl, s₀, content, rfl, h₀⟩ := hflush.returns
  obtain ⟨hsession, hrecv, hmem, hdata, hwire, hrepl, hauth', hport⟩ := handedOver_frame content s₀
  have hptr : (s₀.handedOver content).comm.pqRecvPointer = s₀.comm.pqRecvPointer :=
    (congrArg Comm.pqRecvPointer hrecv :)
  have hlen : (s₀.handedOver content).comm.pqRecvLength = s₀.comm.pqRecvLength :=
    (congrArg Comm.pqRecvLength hrecv :)
  have hbuf : (s₀.handedOver content).comm.pqRecvBuffer = s₀.comm.pqRecvBuffer :=
    (congrArg Comm.pqRecvBuffer hrecv :)
  have hfp : (s₀.handedOver content).comm.queryfp = s₀.comm.queryfp :=
    (congrArg Comm.queryfp hrecv :)
  have hquerylen : (s₀.handedOver content).comm.querylen = s₀.comm.querylen :=
    (congrArg Comm.querylen hrecv :)
  have hreading : (s₀.handedOver content).comm.pqCommReadingMsg = s₀.comm.pqCommReadingMsg :=
    (congrArg Comm.pqCommReadingMsg hrecv :)
  obtain ⟨hwire₀, hrepl₀, hauth₀, hport₀, -⟩ := h₀.steady
  refine ⟨_, .jump hblock (ends_returnEarly _), ?_, hwire.trans hwire₀, hrepl.trans hrepl₀,
    hauth'.trans (hauth₀.trans hauth), hport.trans hport₀, rfl, hdata, hreading.trans h₀.input.notReading,
      ?_, ?_⟩
  · exact congrArg (fun S' : Session σ => { S' with canaryEx := 0 }) (hsession.trans h₀.session)
  · rintro rfl
    have hnone := h₀.input.queryfp_nil
    refine ⟨?_, hfp.trans hnone, hquerylen.trans (h₀.input.shut hnone)⟩
    show (s₀.handedOver content).comm.pqRecvLength - (s₀.handedOver content).comm.pqRecvPointer = 0
    rw [hlen, hptr]
    exact h₀.input.remaining_nil
  · rintro rfl
    have hinput := h₀.input
    rw [← hinput.unread]
    -- the freed byte lies before the unread input, or there is none
    show Memory.read (Memory.write (s₀.handedOver content).comm.mem ⟨.cma, 1⟩ [0])
        ((s₀.handedOver content).comm.pqRecvBuffer.add (s₀.handedOver content).comm.pqRecvPointer)
        ((s₀.handedOver content).comm.pqRecvLength - (s₀.handedOver content).comm.pqRecvPointer) ++
      (s₀.handedOver content).comm.queryfp.getD [] = _
    rw [hmem, hbuf, hptr, hlen, hfp, Comm.unread]
    congr 1
    by_cases hu : u = []
    · subst hu
      have hzero : s₀.comm.pqRecvLength - s₀.comm.pqRecvPointer = 0 := hinput.remaining_nil
      rw [Comm.pqBufferRemainingData, hzero, Memory.read_zero, Memory.read_zero]
    · obtain ⟨hplace, hpos⟩ := hinput.place rfl hu
      refine Memory.read_write_of_ge _ _ _ ?_
      rw [hplace]
      show 1 + 1 ≤ 1 + s₀.comm.pqRecvPointer
      omega

/-! ## Meeting the packet -/

/-- The session at the start of a packet. -/
def Session.opening (S : Session σ) : Session σ :=
  { S with sendReadyForQuery := false, remote := true }

/-- A packet of messages does not start like a startup or a password packet. -/
theorem FrontendMsg.code_ne (m : FrontendMsg) : m.code ≠ 0 ∧ m.code ≠ 112 := by
  cases m <;> decide

/-- A packet in the memory area is offered from its byte 0. -/
theorem offers_cma {c : Comm} {packet : List UInt8} (hreading : c.pqCommReadingMsg = false)
    (hdrained : c.pqBufferRemainingData = 0) (hsock : c.sockfiles = false) (hfp : c.queryfp = none)
    (hsize : c.cmaRsize = packet.length) (hmem : c.mem.read ⟨.cma, 1⟩ packet.length = packet)
    (hfile : c.socketFile.isSome = true) (hlen : c.querylen = 0) (htaken : c.taken = []) :
    Offers b .cma packet.length packet c := by
  refine ⟨hreading, feeds_startmsgread_cma hdrained hsock hfp hsize hmem, ?_, hfile,
    (fun h => by cases h), fun _ => hlen, by simp [htaken]⟩
  rw [startmsgread_cma hdrained hsock, hsize]
  intro _
  refine Or.inr ?_
  show 1 + packet.length ≤ 2 + packet.length
  omega

/-- Loading a packet touches the receive buffer only. -/
theorem pqRecvbufFill_frame (b : Build) (packet : List UInt8) (c : Comm) :
    (pqRecvbufFill b packet packet.length c).pqCommReadingMsg = c.pqCommReadingMsg ∧
      (pqRecvbufFill b packet packet.length c).socketFile = c.socketFile ∧
      (pqRecvbufFill b packet packet.length c).taken = c.taken ∧
      ((pqRecvbufFill b packet packet.length c).queryfp = none →
        (pqRecvbufFill b packet packet.length c).querylen = 0) := by
  unfold pqRecvbufFill
  split_ifs
  · exact ⟨rfl, rfl, rfl, fun h => by cases h⟩
  · exact ⟨rfl, rfl, rfl, fun _ => rfl⟩

/-- A packet in a socket file is offered from its byte 0. -/
theorem offers_file {c : Comm} (packet : List UInt8) (hreading : c.pqCommReadingMsg = false)
    (hfile : c.socketFile.isSome = true) (htaken : c.taken = []) :
    Offers b .file packet.length packet
      { pqRecvbufFill b packet packet.length c with sockfiles := true } := by
  have hfeeds := feeds_pqRecvbufFill (b := b) (c := c) packet
  obtain ⟨hfillReading, hfillFile, hfillTaken, hshut⟩ := pqRecvbufFill_frame b packet c
  have hsock : Feeds b .file packet.length packet
      { pqRecvbufFill b packet packet.length c with sockfiles := true } :=
    ⟨hfeeds.le, hfeeds.unread, hfeeds.length_le, hfeeds.stream, hfeeds.edge, hfeeds.inside,
      hfeeds.place⟩
  refine ⟨hfillReading.trans hreading, hsock.startmsgread (Or.inr rfl), ?_, ?_, fun _ => rfl, hshut, ?_⟩
  · intro hcma
    rw [(startmsgread_frame b _).2.1] at hcma
    cases hcma
  · show (pqRecvbufFill b packet packet.length c).socketFile.isSome = true
    rw [hfillFile]
    exact hfile
  · show (pqRecvbufFill b packet packet.length c).taken.length + packet.length = packet.length
    rw [hfillTaken, htaken, List.length_nil, Nat.zero_add]

/-- The state at `incoming` of a call that meets a packet. -/
structure Meets (b : Build) (t : Transport) (n : ℕ) (packet : List UInt8) (S : Session σ)
    (s : State σ) : Prop where
  session : s.session = S
  input : Offers b t n packet s.comm
  wire : s.isWire = true
  repl : s.isRepl = false
  auth : s.clientAuthInProgress = false
  port : s.myProcPort = true
  peek : s.peek ≠ some 0 ∧ s.peek ≠ some 112
  pipelining : s.pipelining = true
  armed : s.armed = false

/-- From `incoming` the loop is entered, with the handler armed if the build has one. -/
theorem Meets.awaits {packet : List UInt8} (h : Meets b t n packet S s) :
    ∃ s' l, Leads (step b B) .incoming s .loop s' ∧ l.pipelining = true ∧ l.Serving ∧
      Awaits b t n packet l S s' := by
  by_cases hb : b.sigsetjmp = true
  · refine ⟨{ s with armed := true, trace := s.trace ++ [.sigsetjmp] },
      ⟨false, s.peek, s.doingExtendedQueryMessage, true⟩, .single ?_, rfl, ⟨rfl, h.peek⟩, ?_, h.input,
      h.wire, h.repl, h.auth, h.port, rfl, hb.symm, rfl, h.pipelining⟩
    · rw [step, block, if_pos hb]
      rfl
    · rw [← h.session]
      simp [State.session, Event.visible]
  · have hnone : b.sigsetjmp = false := by simpa using hb
    refine ⟨s, ⟨false, s.peek, s.doingExtendedQueryMessage, true⟩, .single ?_, rfl, ⟨rfl, h.peek⟩,
      h.session, h.input, h.wire, h.repl, h.auth, h.port, rfl, h.armed.trans hnone.symm, rfl,
      h.pipelining⟩
    rw [step, block, if_neg hb]
    rfl

/-- An idle backend meets a packet that the host presents to it. -/
theorem Idle.meets (h : Idle B s) (t : Transport) {packet : List UInt8} (hlong : 2 ≤ packet.length)
    (hhead : packet.head? ≠ some 0 ∧ packet.head? ≠ some 112) :
    ∃ s', (∀ fuel, interactiveOne b B fuel (s.request t packet) = run b B fuel .incoming s') ∧
      Meets b t packet.length packet s.session.opening s' := by
  obtain ⟨hrecv, hmem, hfile, -⟩ := openSocketFile_frame (s.request t packet).comm
  cases t with
  | cma =>
      have hsize : ¬(s.request .cma packet).comm.cmaRsize < 0 := not_lt.mpr (Int.natCast_nonneg _)
      have hread : (s.request .cma packet).comm.openSocketFile.mem.read ⟨.cma, 1⟩ packet.length =
          packet := by
        rw [hmem]
        exact Memory.read_write_self _ _ packet
      have hrsize : (s.request .cma packet).comm.openSocketFile.cmaRsize = packet.length :=
        openSocketFile_cmaRsize _
      -- the first byte of the packet
      have hpeek : some ((s.request .cma packet).comm.openSocketFile.mem .cma 1) = packet.head? := by
        obtain ⟨k, hk⟩ : ∃ k, packet.length = k + 1 := ⟨packet.length - 1, by omega⟩
        rw [hk, Memory.read_succ] at hread
        exact congrArg List.head? hread
      refine ⟨_, fun fuel => (interactiveOne_quiet hsize h.port h.data h.quiet fuel).trans
        (run_bind_ok (intake_cma_wire ?_ h.repl)), ?_⟩
      · show 2 ≤ (s.request .cma packet).comm.openSocketFile.cmaRsize
        rw [hrsize]
        omega
      · refine ⟨rfl, offers_cma ?_ ?_ rfl ?_ hrsize hread hfile ?_ ?_, h.wire, h.repl, h.auth, h.port,
          ?_, rfl, rfl⟩
        · exact (congrArg Comm.pqCommReadingMsg hrecv :).trans h.notReading
        · have hptr : (s.request .cma packet).comm.openSocketFile.pqRecvPointer = s.comm.pqRecvPointer :=
            (congrArg Comm.pqRecvPointer hrecv :)
          have hlen : (s.request .cma packet).comm.openSocketFile.pqRecvLength = s.comm.pqRecvLength :=
            (congrArg Comm.pqRecvLength hrecv :)
          show (s.request .cma packet).comm.openSocketFile.pqRecvLength -
            (s.request .cma packet).comm.openSocketFile.pqRecvPointer = 0
          rw [hptr, hlen]
          exact h.drained
        · exact (congrArg Comm.queryfp hrecv :).trans h.queryfp
        · exact (congrArg Comm.querylen hrecv :).trans h.querylen
        · exact (congrArg Comm.taken hrecv :)
        · rw [← hpeek] at hhead
          exact hhead
  | file =>
      obtain ⟨x, xs, rfl⟩ : ∃ x xs, packet = x :: xs := by
        cases packet with
        | nil => simp at hlong
        | cons x xs => exact ⟨x, xs, rfl⟩
      have hsize : ¬(s.request .file (x :: xs)).comm.cmaRsize < 0 := not_lt.mpr h.size.ge
      have hzero : (s.request .file (x :: xs)).comm.openSocketFile.cmaRsize = 0 :=
        (openSocketFile_cmaRsize _).trans h.size
      have hpgs : (s.request .file (x :: xs)).comm.openSocketFile.pgsIn = some (x :: xs) :=
        openSocketFile_pgsIn _
      have hreading : (s.request .file (x :: xs)).comm.openSocketFile.pqCommReadingMsg = false :=
        (congrArg Comm.pqCommReadingMsg hrecv :).trans h.notReading
      have hintake : ∀ s₀ : State σ, s₀.comm.cmaRsize = 0 → s₀.comm.pgsIn = some (x :: xs) →
          s₀.isRepl = false → intake b B s₀ = .ok .incoming
            { s₀ with
              peek := (x :: xs).head?
              fp := true
              whereToSendOutput := .remote
              comm := { pqRecvbufFill b (x :: xs) (x :: xs).length s₀.comm with sockfiles := true } } := by
        intro s₀ hs₀ hfile₀ hrepl₀
        rw [intake_file hs₀ hfile₀, intakeFile_eq, if_neg hhead.1, if_neg hhead.2, State.presented,
          if_neg (by simp [hrepl₀])]
        rfl
      refine ⟨_, fun fuel => (interactiveOne_quiet hsize h.port h.data h.quiet fuel).trans
        (run_bind_ok (hintake _ hzero hpgs h.repl)), ?_⟩
      have htaken : (s.request .file (x :: xs)).comm.openSocketFile.taken = [] :=
        (congrArg Comm.taken hrecv :)
      exact ⟨rfl, offers_file (x :: xs) hreading hfile htaken, h.wire, h.repl, h.auth, h.port, hhead, rfl,
        rfl⟩

/-! ## The call -/

/-- The call with `packet` ends as a played packet says. -/
def CallsAs (b : Build) (B : Backend σ) (t : Transport) (packet : List UInt8) (s : State σ) :
    Finish σ → Prop
  | .flush S rest => ∃ s', Calls b B (s.request t packet) (.ok () s') ∧
      Answered b B t packet.length (encodeTurns rest) S s'
  | .raised S m e rest => ∃ s' l, Calls b B (s.request t packet) (.error .error s') ∧
      Follows b t packet.length (encodeTurns rest) l S s' ∧ l.auth = false ∧
        l.extended = m.kind.extended ∧ s'.errordata = some e
  | .abort => ∃ s', Calls b B (s.request t packet) (.error .abort s')

/-- How the session plays a packet that the transport `t` brings. -/
def State.plays (b : Build) (B : Backend σ) (t : Transport) (ts : List Turn) (s : State σ) : Finish σ :=
  s.session.opening.play b B (t.more b (encodeTurns ts).length) 0 ts

/-- **A call plays its packet.** -/
theorem call_packet (hidle : Idle B s) (hquiet : QuietNotify B) (t : Transport) {ts : List Turn}
    (hts : ts ≠ []) (hcovers : Covers B s.session.mode ts) :
    CallsAs b B t (encodeTurns ts) s (s.plays b B t ts) := by
  obtain ⟨m, ts', rfl⟩ : ∃ m ts', ts = m :: ts' := List.exists_cons_of_ne_nil hts
  have hmsg := m.length_encode
  have hlong : 2 ≤ (encodeTurns (m :: ts')).length := by
    rw [encodeTurns_cons, List.length_append]
    omega
  have hhead : (encodeTurns (m :: ts')).head? = some m.kind.code := rfl
  obtain ⟨s₀, hentry, hmeets⟩ := hidle.meets (b := b) t hlong (by
    rw [hhead]
    simpa using m.kind.code_ne)
  obtain ⟨s₁, l, hincoming, hpipe, hserving, hawaits⟩ := hmeets.awaits (B := B)
  have hplay := play_simulates B hawaits hserving (Nat.zero_add _) hts hcovers rfl hpipe
  rw [State.plays]
  cases hfinish : s.session.opening.play b B
      (t.more b (encodeTurns (m :: ts')).length) 0 (m :: ts') with
  | flush S rest =>
      rw [hfinish] at hplay
      obtain ⟨s₂, l', hloop, hfollows, hauth⟩ := hplay
      -- at least one turn was played
      have hlt := length_encodeTurns_lt (play_rest b B _ _ _ hfinish) hts
      obtain ⟨s₃, hflush, hanswered⟩ := ends_wireFlush hquiet hauth hlt hfollows
      exact ⟨s₃, calls_of_ends hentry (hincoming.ends (hloop.ends hflush)), hanswered⟩
  | raised S m' e rest =>
      rw [hfinish] at hplay
      obtain ⟨s₂, l', hloop, hrest⟩ := hplay
      exact ⟨s₂, l', calls_of_ends hentry (hincoming.ends hloop), hrest⟩
  | abort =>
      rw [hfinish] at hplay
      obtain ⟨s₂, hloop⟩ := hplay
      exact ⟨s₂, calls_of_ends hentry (hincoming.ends hloop)⟩

/-! ## Batches -/

/-- A packet of complete messages other than Terminate, whose handlers find their COPY messages. -/
structure Batch (B : Backend σ) (s : State σ) (ts : List Turn) : Prop where
  nonempty : ts ≠ []
  kinds : ∀ t ∈ ts, t.kind ≠ .terminate
  covers : Covers B s.session.mode ts

/-- A backend whose handlers put `row` and let every Query fail. -/
def Backend.failing (row : List UInt8) : Backend Unit :=
  .stateless fun m _ => ([.putbytes row], if m = .query then some ⟨.other, "failed"⟩ else none)

/-- A Query message without text. -/
def Msg.query : Msg := ⟨.query, [0], by decide⟩

/-- Queries are a batch for a backend that fails them. -/
theorem batch_failing (row : List UInt8) (k : ℕ) :
    Batch (Backend.failing row) (State.waiting ()) (List.replicate (k + 1) Msg.query.turn) where
  nonempty := by simp
  kinds t ht := by
    rw [List.eq_of_mem_replicate ht]
    simp [Msg.turn, Msg.query]
  covers := covers_of_reads (fun _ m _ => by cases m <;> rfl)
    (fun t ht => by rw [List.eq_of_mem_replicate ht]; rfl) _

end PgliteBuild
