import PgliteBuild.Foundation.Runs
import PgliteBuild.Pqcomm.Send

/-! # Input read once, reply kept

`pq_startmsgread` serves both as "a packet has arrived" and as "the next message of the same packet",
and tells them apart by whether the receive buffer holds data. During one call it therefore rewinds to
the start of the packet, and forgets the reply, when a message is started after all input was used up
while the reply is still in the memory area. This file proves that nothing else goes wrong: for every
sequence of reads and sends in one call, the bytes consumed are a prefix of the packet and the reply is
all that was put, exactly as long as no message is started there and nothing was put before the first. -/

namespace PgliteBuild

open BlockMemory Effect Framing Runs

/-! ## The operations of one call -/

/-- What `interactive_one` and the message handlers do to the connection during one call. -/
inductive CallOp where
  /-- `pq_startmsgread`, and the `pq_getbyte` that follows it in every reader. -/
  | startmsg
  /-- `pq_getbyte`. -/
  | getbyte
  /-- `pq_getmessage`. -/
  | getmessage (maxlen : ℕ)
  /-- `pq_endmsgread`. -/
  | endmsgread
  /-- `internal_putbytes` or `internal_flush`. -/
  | send (op : SendOp)
  deriving DecidableEq, Repr

/-- Run one operation. -/
def CallOp.run (b : Build) : CallOp → CommM Unit
  | startmsg => do
    pqStartmsgread b
    modify fun c => (pqGetbyte b c).2
  | getbyte => modify fun c => (pqGetbyte b c).2
  | getmessage maxlen => modify fun c => (pqGetmessage b maxlen c).2
  | endmsgread => pqEndmsgread
  | send op => op.run

/-- The bytes that an operation puts on the connection. -/
def CallOp.bytes : CallOp → List UInt8
  | send op => op.bytes
  | startmsg | getbyte | getmessage _ | endmsgread => []

/-- One operation that returns. -/
def CallOp.step (b : Build) (c : Comm) (op : CallOp) (c' : Comm) : Prop := op.run b c = .ok () c'

/-- Whether a message that is about to start goes on in the same packet: there is unread input in the
buffer, or the reply has left the memory area. (While a message is being read, none can start.) -/
def StartsInside (c : Comm) (op : CallOp) : Prop :=
  op = .startmsg → c.pqCommReadingMsg = true ∨ 0 < c.pqBufferRemainingData ∨ c.sockfiles = true

/-- The connection of a call that meets a packet in the memory area. -/
structure CmaRequest (packet : List UInt8) (c : Comm) : Prop where
  nonempty : packet ≠ []
  notReading : c.pqCommReadingMsg = false
  drained : c.pqBufferRemainingData = 0
  queryfp : c.queryfp = none
  size : c.cmaRsize = packet.length
  packet : c.mem.read ⟨.cma, 1⟩ packet.length = packet
  file : c.socketFile = some []
  taken : c.taken = []

/-- A call up to its first message: sends on behalf of notifications, the choice of the transport,
and the first `pq_startmsgread` with its `pq_getbyte`. -/
def enterRequest (b : Build) (pre : List SendOp) : CommM Unit := do
  runSends pre
  modify fun c => { c with sockfiles := false }
  CallOp.startmsg.run b

/-! ## The invariant -/

/-- What holds in a call that never rewinds: consumed and unread input make up the packet, the reply
is what was put, and the two do not overlap. -/
structure OnceInv (b : Build) (packet put : List UInt8) (c : Comm) : Prop where
  settled : ∃ u, Settled b .cma packet.length u c ∧ c.taken ++ u = packet
  apart : c.sockfiles = false → c.pqRecvBuffer = ⟨.cma, 1⟩ ∧ c.pqRecvLength ≤ packet.length ∧
    c.pqSendBuffer = ⟨.cma, 2 + packet.length⟩
  file : FileReady c
  reply : c.reply = put
  size : c.cmaRsize = packet.length

variable {b : Build} {packet put : List UInt8} {c c' : Comm}

/-- Copies of the reply land behind the packet. -/
theorem OnceInv.sendsApart (h : OnceInv b packet put c) : SendsApart c := by
  intro hsock
  obtain ⟨hrecv, hlen, hsend⟩ := h.apart hsock
  refine Or.inr ?_
  rw [hrecv, hsend]
  show 1 + c.pqRecvLength ≤ 2 + packet.length
  omega

/-- Whether a message is being read does not matter to the invariant. -/
theorem OnceInv.reading (h : OnceInv b packet put c) (flag : Bool) :
    OnceInv b packet put { c with pqCommReadingMsg := flag } := by
  obtain ⟨u, hsettled, htaken⟩ := h.settled
  exact ⟨⟨u, hsettled.reading flag, htaken⟩, h.apart, h.file, h.reply, h.size⟩

/-- Reading keeps the invariant. -/
theorem OnceInv.reads (h : OnceInv b packet put c) {u : List UInt8}
    (hsettled : Settled b .cma packet.length u c') (hreads : Reads c c') :
    OnceInv b packet put c' := by
  obtain ⟨u₀, hset₀, htaken₀⟩ := h.settled
  obtain ⟨hmem, -, hlen⟩ := hreads.still hset₀.queryfp_cma
  have hsock : c'.sockfiles = c.sockfiles := (congrArg Comm.sockfiles hreads.same :)
  have hfile : c'.socketFile = c.socketFile := (congrArg Comm.socketFile hreads.same :)
  have hrecv : c'.pqRecvBuffer = c.pqRecvBuffer := (congrArg Comm.pqRecvBuffer hreads.same :)
  have hsend : c'.pqSendBuffer = c.pqSendBuffer := (congrArg Comm.pqSendBuffer hreads.same :)
  have hptr : c'.pqSendPointer = c.pqSendPointer := (congrArg Comm.pqSendPointer hreads.same :)
  have hsize : c'.cmaRsize = c.cmaRsize := (congrArg Comm.cmaRsize hreads.same :)
  constructor
  · refine ⟨u, hsettled, ?_⟩
    have hstream : c'.taken ++ c'.unread = c.taken ++ c.unread := hreads.stream
    rw [← hsettled.unread, hstream, hset₀.unread, htaken₀]
  · intro hcma
    obtain ⟨hr, hl, hs⟩ := h.apart (hsock.symm.trans hcma)
    exact ⟨hrecv.trans hr, hlen.trans hl, hsend.trans hs⟩
  · rw [FileReady, hfile, hsock]
    exact h.file
  · rw [← h.reply, Comm.reply, Comm.reply, hsock, hfile, hmem, hsend, hptr]
  · exact hsize.trans h.size

/-- Sending keeps the invariant and extends the reply. -/
theorem OnceInv.send (h : OnceInv b packet put c) (op : SendOp) :
    OnceInv b packet (put ++ op.bytes) (c.send op) := by
  obtain ⟨u, hsettled, htaken⟩ := h.settled
  have hsame := sameInput_send h.sendsApart op
  have hsock : (c.send op).sockfiles = false → c.sockfiles = false ∧
      (c.send op).pqSendBuffer = c.pqSendBuffer := by
    cases op with
    | putbytes s =>
        rw [Comm.send, Comm.putbytes]
        split_ifs with hsock
        · exact fun hfalse => absurd (hsock.symm.trans hfalse) (by simp)
        · exact fun hfalse => ⟨hfalse, rfl⟩
        · exact fun hfalse => ⟨hfalse, rfl⟩
        · exact fun hfalse => absurd hfalse (by simp [Comm.spill, Comm.redirect])
        · exact fun hfalse => absurd hfalse (by simp [Comm.spill, Comm.redirect])
    | flush =>
        rw [Comm.send]
        split_ifs with hsock
        · exact fun hfalse => absurd (hsock.symm.trans hfalse) (by simp)
        · exact fun hfalse => ⟨hfalse, rfl⟩
  have hrecv : (c.send op).pqRecvBuffer = c.pqRecvBuffer := (congrArg Comm.pqRecvBuffer hsame.same :)
  have hlen : (c.send op).pqRecvLength = c.pqRecvLength := (congrArg Comm.pqRecvLength hsame.same :)
  have htaken' : (c.send op).taken = c.taken := (congrArg Comm.taken hsame.same :)
  have hsize : (c.send op).cmaRsize = c.cmaRsize := (congrArg Comm.cmaRsize hsame.same :)
  constructor
  · exact ⟨u, hsettled.of_sameInput hsame, by rw [htaken', htaken]⟩
  · intro hcma
    obtain ⟨hcma₀, hbuf⟩ := hsock hcma
    obtain ⟨hr, hl, hs⟩ := h.apart hcma₀
    exact ⟨hrecv.trans hr, hlen.trans_le hl, hbuf.trans hs⟩
  · exact h.file.send op
  · rw [reply_send h.file, h.reply]
  · exact hsize.trans h.size

/-- Starting a message inside the packet keeps the invariant. -/
theorem OnceInv.startmsgread (h : OnceInv b packet put c)
    (hmid : 0 < c.pqBufferRemainingData ∨ c.sockfiles = true) :
    OnceInv b packet put (c.startmsgread b) := by
  rcases Nat.eq_zero_or_pos c.pqBufferRemainingData with hzero | hpos
  · -- the input is used up, but the reply is safe in the socket file
    have hsock : c.sockfiles = true := hmid.resolve_left hzero.not_gt
    obtain ⟨u, hsettled, htaken⟩ := h.settled
    have hfeeds := hsettled.toFeeds.startmsgread hmid
    rw [startmsgread_file hzero hsock] at hfeeds ⊢
    refine ⟨⟨u, ⟨hfeeds, fun _ => hzero⟩, htaken⟩, ?_, h.file, ?_, h.size⟩
    · exact fun hfalse => absurd (hsock.symm.trans hfalse) (by simp)
    · rw [← h.reply, Comm.reply, Comm.reply, if_pos hsock, if_pos hsock]
  · rw [startmsgread_of_buffered hpos]
    exact h.reading true

/-- **Step lemma**: an operation that does not start a message outside the packet keeps the
invariant. -/
theorem OnceInv.step (h : OnceInv b packet put c) {op : CallOp} (hinside : StartsInside c op)
    (hstep : CallOp.step b c op c') : OnceInv b packet (put ++ op.bytes) c' := by
  obtain ⟨u, hsettled, htaken⟩ := h.settled
  cases op with
  | startmsg =>
      rw [CallOp.bytes, List.append_nil]
      rcases Bool.eq_false_or_eq_true c.pqCommReadingMsg with hreading | hreading
      · rw [CallOp.step, CallOp.run, run_bind_error (pqStartmsgread_reading hreading)] at hstep
        cases hstep
      · rw [CallOp.step, CallOp.run, run_bind_ok (pqStartmsgread_eq hreading), run_modify] at hstep
        cases hstep
        have hmid := (hinside rfl).resolve_left (by simp [hreading])
        obtain ⟨-, hset, hreads⟩ := pqGetbyte_spec (hsettled.toFeeds.startmsgread hmid)
        exact (h.startmsgread hmid).reads hset hreads
  | getbyte =>
      cases hstep
      obtain ⟨-, hset, hreads⟩ := pqGetbyte_spec hsettled.toFeeds
      rw [CallOp.bytes, List.append_nil]
      exact h.reads hset hreads
  | getmessage maxlen =>
      cases hstep
      obtain ⟨-, hset, hreads⟩ := pqGetmessage_spec maxlen hsettled
      rw [CallOp.bytes, List.append_nil]
      exact (h.reading _).reads hset hreads
  | endmsgread =>
      cases hstep
      rw [CallOp.bytes, List.append_nil]
      exact h.reading false
  | send op =>
      cases op with
      | putbytes s =>
          rw [CallOp.step, CallOp.run, SendOp.run, internalPutbytes_eq h.file.1] at hstep
          cases hstep
          exact h.send (.putbytes s)
      | flush =>
          cases hstep
          exact h.send .flush

/-! ## Rewinding -/

/-- A message that starts with all input used up, and the reply in the memory area, is read from byte 0
of the packet, and the reply starts anew. -/
theorem rewind_spec {n : ℕ} (hdrained : c.pqBufferRemainingData = 0) (hsock : c.sockfiles = false)
    (hfp : c.queryfp = none) (hsize : c.cmaRsize = n) (hn : 0 < n) :
    (pqGetbyte b (c.startmsgread b)).2.reply = [] ∧
      (pqGetbyte b (c.startmsgread b)).2.taken.length = c.taken.length + 1 := by
  obtain ⟨packet, hpacket⟩ : ∃ packet, c.mem.read ⟨.cma, 1⟩ n = packet := ⟨_, rfl⟩
  obtain rfl : packet.length = n := by rw [← hpacket, Memory.length_read]
  have hfeeds := feeds_startmsgread_cma (b := b) hdrained hsock hfp hsize hpacket
  obtain ⟨-, hset, hreads⟩ := pqGetbyte_spec hfeeds
  have hstream := congrArg List.length hreads.stream
  rw [hset.unread, hfeeds.unread, List.length_append, List.length_append, List.length_tail] at hstream
  rw [startmsgread_cma hdrained hsock] at hreads hstream ⊢
  have hsock' := (congrArg Comm.sockfiles hreads.same :)
  have hptr' := (congrArg Comm.pqSendPointer hreads.same :)
  simp only [Comm.sendSide] at hsock' hptr' hstream
  constructor
  · rw [Comm.reply, hsock', hptr', if_neg (by simp [hsock]), Memory.read_zero]
  · omega

/-! ## The first message -/

/-- Sends without bytes leave a call at its start. -/
theorem CmaRequest.send (h : CmaRequest packet c) {op : SendOp} (hop : op.bytes = []) :
    CmaRequest packet (c.send op) := by
  cases op with
  | putbytes s =>
      obtain rfl : s = [] := hop
      rw [Comm.send, Comm.putbytes]
      split_ifs
      · exact ⟨h.nonempty, h.notReading, h.drained, h.queryfp, h.size, h.packet,
          by simp [Comm.spill, h.file], h.taken⟩
      · exact h
      all_goals contradiction
  | flush =>
      rw [Comm.send]
      split_ifs
      · exact ⟨h.nonempty, h.notReading, h.drained, h.queryfp, h.size, h.packet, h.file, h.taken⟩
      · exact h

/-- Sends without bytes leave a request in the memory area as it is. -/
theorem CmaRequest.sends (h : CmaRequest packet c) {pre : List SendOp}
    (hpre : pre.flatMap SendOp.bytes = []) : CmaRequest packet (pre.foldl Comm.send c) := by
  induction pre generalizing c with
  | nil => exact h
  | cons op pre ih =>
      rw [List.flatMap_cons, List.append_eq_nil_iff] at hpre
      exact ih (h.send hpre.1) hpre.2

/-- Sends leave the receive side alone. -/
theorem recvSide_sends (c : Comm) (ops : List SendOp) :
    (ops.foldl Comm.send c).recvSide = c.recvSide := by
  induction ops generalizing c with
  | nil => rfl
  | cons op ops ih => exact (ih (c.send op)).trans (recvSide_send c op)

/-- The connection after `enterRequest`. -/
def Comm.entered (b : Build) (pre : List SendOp) (c : Comm) : Comm :=
  (pqGetbyte b (Comm.startmsgread b { pre.foldl Comm.send c with sockfiles := false })).2

/-- Entering a request sends what comes before it, and starts its first message. -/
theorem enterRequest_eq (h : CmaRequest packet c) (pre : List SendOp) :
    enterRequest b pre c = .ok () (c.entered b pre) := by
  have hsends : runSends pre c = .ok () (pre.foldl Comm.send c) := runSends_eq (by simp [h.file]) pre
  have hreading : (pre.foldl Comm.send c).pqCommReadingMsg = c.pqCommReadingMsg :=
    (congrArg Comm.pqCommReadingMsg (recvSide_sends c pre) :)
  have hstart : Comm.pqCommReadingMsg { pre.foldl Comm.send c with sockfiles := false } = false :=
    hreading.trans h.notReading
  rw [enterRequest, run_bind_ok hsends, run_bind_ok (run_modify _ _), CallOp.run,
    run_bind_ok (pqStartmsgread_eq hstart)]
  rfl

/-- The first message starts with an empty reply, whatever was put before. -/
theorem reply_entered (h : CmaRequest packet c) (pre : List SendOp) : (c.entered b pre).reply = [] := by
  have hsame := recvSide_sends c pre
  have hptr := (congrArg Comm.pqRecvPointer hsame :)
  have hlen := (congrArg Comm.pqRecvLength hsame :)
  have hfp := (congrArg Comm.queryfp hsame :)
  have hsize := (congrArg Comm.cmaRsize hsame :)
  simp only [Comm.recvSide] at hptr hlen hfp hsize
  have hdrained : Comm.pqBufferRemainingData { pre.foldl Comm.send c with sockfiles := false } = 0 := by
    rw [Comm.pqBufferRemainingData, hptr, hlen]
    exact h.drained
  exact (rewind_spec hdrained rfl (hfp.trans h.queryfp) (hsize.trans h.size)
    (List.length_pos_iff.mpr h.nonempty)).1

/-- The first message of a packet establishes the invariant. -/
theorem CmaRequest.onceInv (h : CmaRequest packet c) (hsock : c.sockfiles = false) :
    OnceInv b packet [] (pqGetbyte b (c.startmsgread b)).2 := by
  have hfeeds := feeds_startmsgread_cma (b := b) h.drained hsock h.queryfp h.size h.packet
  obtain ⟨-, hset, hreads⟩ := pqGetbyte_spec hfeeds
  have hn : c.cmaRsize.toNat = packet.length := by rw [h.size, Int.toNat_natCast]
  refine OnceInv.reads ?_ hset hreads
  rw [startmsgread_cma h.drained hsock] at hfeeds ⊢
  refine ⟨⟨packet, hfeeds.settled_cma, congrArg (· ++ packet) h.taken⟩, ?_, ?_, ?_, h.size⟩
  · intro _
    exact ⟨rfl, hn.le, by rw [hn]⟩
  · exact ⟨by simp [h.file], fun _ => h.file⟩
  · rw [Comm.reply, if_neg (by simp [hsock]), Memory.read_zero]

/-- With nothing put before it, the first message establishes the invariant. -/
theorem onceInv_entered (h : CmaRequest packet c) {pre : List SendOp}
    (hpre : pre.flatMap SendOp.bytes = []) : OnceInv b packet [] (c.entered b pre) := by
  have h' := h.sends hpre
  have hintake : CmaRequest packet { pre.foldl Comm.send c with sockfiles := false } :=
    ⟨h'.nonempty, h'.notReading, h'.drained, h'.queryfp, h'.size, h'.packet, h'.file, h'.taken⟩
  exact hintake.onceInv rfl

/-! ## Every sequence of operations -/

/-- What at-most-once input asks of the states that a call goes through: the bytes consumed are a prefix
of the packet, and the reply is everything put in the call. -/
def ReadOnce (b : Build) (packet : List UInt8) (pre : List SendOp) (c : Comm) (ops : List CallOp) :
    Prop :=
  ∀ ops' c', ops' <+: ops → Reaches (CallOp.step b) c ops' c' →
    c'.taken <+: packet ∧ c'.reply = pre.flatMap SendOp.bytes ++ ops'.flatMap CallOp.bytes

/-- A run in which no message starts outside the packet keeps the invariant. -/
theorem onceInv_run (hinit : OnceInv b packet [] c) {ops : List CallOp}
    (hguard : Guarded (CallOp.step b) StartsInside c ops)
    (hrun : Reaches (CallOp.step b) c ops c') : OnceInv b packet (ops.flatMap CallOp.bytes) c' := by
  refine Reaches.inv (I := fun ops c => OnceInv b packet (ops.flatMap CallOp.bytes) c) hinit ?_ hguard
    hrun
  intro ops op t t' hinv hinside hstep
  rw [List.flatMap_append, List.flatMap_singleton]
  exact hinv.step hinside hstep

/-- A message that starts outside the packet reads a byte a second time. -/
theorem OnceInv.startsInside (hinv : OnceInv b packet put c) (hne : packet ≠ [])
    (honce : ∀ c', CallOp.step b c .startmsg c' → c'.taken <+: packet) (op : CallOp) :
    StartsInside c op := by
  intro _
  by_contra hcon
  push Not at hcon
  obtain ⟨hreading, hdrained, hsock⟩ := hcon
  have hreading : c.pqCommReadingMsg = false := by simpa using hreading
  have hsock : c.sockfiles = false := by simpa using hsock
  have hdrained : c.pqBufferRemainingData = 0 := Nat.le_zero.mp hdrained
  obtain ⟨u, hsettled, htaken⟩ := hinv.settled
  have hfp := hsettled.queryfp_cma
  -- all of the packet has been consumed
  have hu : u.length = 0 := by rw [hsettled.length_eq, hdrained, Comm.ahead, hfp]; rfl
  have hall := congrArg List.length htaken
  rw [List.length_append, hu] at hall
  have hnext : CallOp.step b c .startmsg (pqGetbyte b (c.startmsgread b)).2 := by
    rw [CallOp.step, CallOp.run, run_bind_ok (pqStartmsgread_eq hreading)]
    rfl
  have hle := (honce _ hnext).length_le
  rw [(rewind_spec hdrained hsock hfp hinv.size (List.length_pos_iff.mpr hne)).2] at hle
  omega

/-- A call that reads its input once starts every later message inside the packet. -/
theorem startsInside_of_readOnce (hne : packet ≠ []) {pre : List SendOp} {ops : List CallOp}
    (hinit : OnceInv b packet [] c) (honce : ReadOnce b packet pre c ops) :
    Guarded (CallOp.step b) StartsInside c ops := by
  intro before op hprefix t hrun
  -- induction on the number of operations before the one about to run
  induction hlen : before.length using Nat.strong_induction_on generalizing before op t with
  | _ n ih =>
    have hguard : Guarded (CallOp.step b) StartsInside c before := by
      intro earlier op' hearlier t' hrun'
      have hshort := hearlier.length_le
      rw [List.length_append, List.length_singleton] at hshort
      exact ih earlier.length (by omega) earlier op'
        (hearlier.trans ((List.prefix_append _ _).trans hprefix)) t' hrun' rfl
    intro hop
    subst hop
    refine (onceInv_run hinit hguard hrun).startsInside hne (fun t' hstep => ?_) .startmsg rfl
    exact (honce (before ++ [.startmsg]) t' hprefix (hrun.snoc hstep)).1

/-- **Input is read once, and the reply kept**, in every state of a call, exactly when nothing is put
before the first message and every later message starts inside the packet. -/
theorem readOnce_iff (b : Build) (packet : List UInt8) (c : Comm) (h : CmaRequest packet c)
    (pre : List SendOp) (ops : List CallOp) :
    ∃ c₀, enterRequest b pre c = .ok () c₀ ∧
      (ReadOnce b packet pre c₀ ops ↔
        pre.flatMap SendOp.bytes = [] ∧ Guarded (CallOp.step b) StartsInside c₀ ops) := by
  refine ⟨_, enterRequest_eq h pre, ?_, ?_⟩
  · intro honce
    have hpre : pre.flatMap SendOp.bytes = [] := by
      have hreply := (honce [] _ List.nil_prefix Reaches.nil).2
      rw [reply_entered h pre, List.flatMap_nil, List.append_nil] at hreply
      exact hreply.symm
    have hinit := onceInv_entered (b := b) h hpre
    refine ⟨hpre, ?_⟩
    exact startsInside_of_readOnce h.nonempty hinit honce
  · rintro ⟨hpre, hguard⟩ ops' c' hprefix hrun
    have hinv := onceInv_run (onceInv_entered h hpre) (hguard.of_prefix hprefix) hrun
    obtain ⟨u, -, htaken⟩ := hinv.settled
    exact ⟨⟨u, htaken⟩, by rw [hinv.reply, hpre, List.nil_append]⟩

/-- The connection when a Sync message of five bytes has arrived in the memory area. -/
def syncRequest : Comm :=
  { Comm.boot with
    mem := Comm.boot.mem.write ⟨.cma, 1⟩ [83, 0, 0, 0, 4]
    cmaRsize := 5
    socketFile := some [] }

/-- A Sync in the memory area is a request. -/
theorem cmaRequest_syncRequest : CmaRequest [83, 0, 0, 0, 4] syncRequest := by
  constructor <;> first | rfl | decide

/-- A handler that has read its message to the end of the packet, has put a byte of its reply, and then
starts to read another message gets byte 0 of the packet again, and its reply is forgotten. -/
theorem rewind_after_last_message :
    CmaRequest [83, 0, 0, 0, 4] syncRequest ∧
      ∃ c₀ c', enterRequest .emscripten [] syncRequest = .ok () c₀ ∧
        Reaches (CallOp.step .emscripten) c₀
          [.getmessage 10000, .send (.putbytes [71]), .startmsg] c' ∧
        c'.taken = [83, 0, 0, 0, 4, 83] ∧ c'.reply = [] ∧
        ¬ReadOnce .emscripten [83, 0, 0, 0, 4] [] c₀
          [.getmessage 10000, .send (.putbytes [71]), .startmsg] := by
  have hread : Reaches (CallOp.step .emscripten) (syncRequest.entered .emscripten [])
      [.getmessage 10000] _ := Reaches.nil.snoc (i := CallOp.getmessage 10000) rfl
  have hput : Reaches (CallOp.step .emscripten) (syncRequest.entered .emscripten [])
      [.getmessage 10000, .send (.putbytes [71])] _ :=
    hread.snoc (i := CallOp.send (.putbytes [71])) rfl
  have hrun : Reaches (CallOp.step .emscripten) (syncRequest.entered .emscripten [])
      [.getmessage 10000, .send (.putbytes [71]), .startmsg] _ := hput.snoc (i := CallOp.startmsg) rfl
  refine ⟨cmaRequest_syncRequest, _, _, enterRequest_eq cmaRequest_syncRequest [], hrun, by decide,
    by decide, ?_⟩
  intro honce
  have hreply := (honce _ _ List.prefix_rfl hrun).2
  revert hreply
  decide

/-- `readOnce_iff` for a Sync message answered by ReadyForQuery. -/
theorem readOnce_sync :
    ∃ c₀, enterRequest .emscripten [] syncRequest = .ok () c₀ ∧
      (ReadOnce .emscripten [83, 0, 0, 0, 4] [] c₀
          [.getmessage 10000, .send (.putbytes [90, 0, 0, 0, 5, 73])] ↔
        [].flatMap SendOp.bytes = [] ∧ Guarded (CallOp.step .emscripten) StartsInside c₀
          [.getmessage 10000, .send (.putbytes [90, 0, 0, 0, 5, 73])]) :=
  readOnce_iff .emscripten [83, 0, 0, 0, 4] syncRequest cmaRequest_syncRequest [] _

end PgliteBuild
