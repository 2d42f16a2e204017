import PgliteBuild.Pqcomm.CmaBounds
import PgliteBuild.Session.Isolation
import PgliteBuild.Session.ReplyCount

/-! # The reply to a request in the memory area

Whatever is put during a call with a packet in the memory area goes behind the packet, or to the socket file
once it does not fit there, and the hand-over tells the host which. The invariant of the loop is that of
`Leftover`, with the place of the reply (`ReplyPlaced`) beside the rest of the packet; what earlier calls left is
ruled out by the count of `ReplyCount`. -/

namespace PgliteBuild

open BlockMemory CInt Effect Framing Runs

variable {σ : Type} {b : Build} {B : Backend σ} {p u v sent : List UInt8} {pk : Option UInt8} {a : Bool}
  {room r : ℕ} {s s' : State σ} {l : Label}

/-! ## The reply under way -/

/-- All that was put behind `sent` is the reply to a packet of `r` bytes, and it is placed. -/
structure Replying (r room : ℕ) (sent : List UInt8) (s : State σ) : Prop where
  wsize : s.cmaWsize = 0
  reply : ∃ put, s.sent = sent ++ put ∧ ReplyPlaced (2 + r) room put s.comm

/-- Code that touches neither the connection nor what was put. -/
theorem Replying.still (h : Replying r room sent s) (hcomm : s'.comm = s.comm) (hwsize : s'.cmaWsize = s.cmaWsize)
    (hsent : s'.sent = s.sent) : Replying r room sent s' := by
  obtain ⟨hzero, put, hput, hplaced⟩ := h
  refine ⟨hwsize.trans hzero, put, hsent.trans hput, ?_⟩
  rw [hcomm]
  exact hplaced

/-- Code that only sends keeps the reply. -/
theorem Replying.send (h : Replying r room sent s) (hmove : SendMove s s') : Replying r room sent s' := by
  cases hmove with
  | control hframe => exact h.still hframe.comm hframe.cmaWsize (congrArg (List.flatMap Event.bytes) hframe.trace)
  | note he => exact h.still rfl rfl (sent_note (Event.bytes_of_isNote he))
  | put source ops _ =>
      obtain ⟨hzero, put, hput, hplaced⟩ := h
      refine ⟨hzero, put ++ ops.flatMap SendOp.bytes, ?_, hplaced.sends ops⟩
      rw [sent_put, hput, List.append_assoc]
  | flush =>
      obtain ⟨hzero, put, hput, hplaced⟩ := h
      have hflushed := hplaced.send .flush
      rw [SendOp.bytes, List.append_nil] at hflushed
      exact ⟨hzero, put, hput, hflushed⟩
  | closed _ hnone _ _ =>
      obtain ⟨-, put, -, hplaced⟩ := h
      have hopen := hplaced.file.1
      rw [hnone] at hopen
      cases hopen

/-- The reply goes on in the same place. -/
theorem Replying.comm (h : Replying r room sent s) {c : Comm}
    (hc : ∀ put, ReplyPlaced (2 + r) room put s.comm → ReplyPlaced (2 + r) room put c) :
    Replying r room sent { s with comm := c } := by
  obtain ⟨hwsize, put, hput, hplaced⟩ := h
  exact ⟨hwsize, put, hput, hc put hplaced⟩

/-- In the call of the packet `p` in the memory area, `u` is left of it and the reply is placed. -/
def Carried (b : Build) (p : List UInt8) (room : ℕ) (sent : List UInt8) (pk : Option UInt8) (a : Bool)
    (u : List UInt8) (s : State σ) : Prop :=
  Left b .cma p pk a u s ∧ Replying p.length room sent s

/-- **The place of the reply is conveyed by the code.** -/
theorem conveyed_carried (b : Build) (p : List UInt8) (room : ℕ) (sent : List UInt8) (pk : Option UInt8)
    (a : Bool) :
    Conveyed (σ := σ) b .cma p.length pk a (Carried b p room sent pk a) (Calling .cma p pk a) := by
  refine (conveyed_left b .cma p pk a).and (fun _ _ => Replying.send) ?_ ?_ ?_
  · intro u s c hfeeds h hreads
    exact h.comm fun _ hplaced => hplaced.reads hreads hfeeds.queryfp_cma
  · intro s flag h
    exact h.comm fun _ hplaced => ⟨hplaced.file, hplaced.reply, hplaced.count, hplaced.area, hplaced.spilled⟩
  · intro u s hleft hu h
    exact h.comm fun _ hplaced => hplaced.startmsgread (hleft.input.toSettled.midway hleft.input.sockfiles hu)

/-- What a call leaves behind its loop: a startup packet is used up. -/
def Served (b : Build) (p : List UInt8) (room : ℕ) (sent : List UInt8) (pk : Option UInt8) (a : Bool)
    (s : State σ) : Prop :=
  ∃ v, (pk = some 0 → v = []) ∧ Carried b p room sent pk a v s

/-- At the head of the loop, with the reply placed: a startup packet is met at its byte 0. -/
abbrev CarriedHead (b : Build) (p : List UInt8) (room : ℕ) (sent : List UInt8) (pk : Option UInt8) (a : Bool) :
    State σ → Prop :=
  AtHead b .cma p.length (Carried b p room sent pk a) (Calling .cma p pk a) (fun u => pk = some 0 → u = p)
    (Served b p room sent pk a)

/-- A packet whose reply is carried is a stream that the head of the loop can read. -/
theorem heading_carried (b : Build) (hp : p ≠ []) (room : ℕ) (sent : List UInt8) (pk : Option UInt8) (a : Bool) :
    Heading (σ := σ) .cma p.length pk (Carried b p room sent pk a) (fun u => pk = some 0 → u = p)
      (Served b p room sent pk a) where
  ended h := ⟨[], fun _ => rfl, h⟩
  startup hQ hpk := by
    obtain rfl := hQ hpk
    exact ⟨rfl, hp, rfl⟩
  password _ hpk _ := by
    have hnot : ∀ {q : Prop}, pk = some 0 → q := fun hzero => by
      rw [hpk] at hzero
      cases hzero
    exact ⟨fun _ => hnot, fun _ h => ⟨_, hnot, h⟩⟩
  serving hbyte _ hzero := absurd hzero hbyte.1

/-! ## Rounds of the loop -/

/-- The messages that the handler of the next message reads are in the packet. -/
def HandlerReadsInside (b : Build) (B : Backend σ) (s : State σ) : Prop :=
  ∀ (m : Msg) v, (s.comm.startmsgread b).unread = m.encode ++ v → StaysInside (s.reads B m) v

/-- In the memory area the buffer runs dry only with the packet. -/
theorem turnRead_carried (hbyte : pk ≠ some 0) (hin : HandlerReadsInside b B s)
    (hfeeds : Feeds b .cma p.length u (s.comm.startmsgread b)) :
    TurnRead b B .cma p.length (Carried b p room sent pk a) (Served b p room sent pk a) u s := by
  have hserved : ∀ v (s' : State σ), Carried b p room sent pk a v s' → Served b p room sent pk a s' :=
    fun v _ h' => ⟨v, fun hzero => absurd hzero hbyte, h'⟩
  refine ⟨fun _ v _ _ => hserved v, fun _ _ v _ _ => hserved v, fun m v hu => ?_, ?_⟩
  · exact hin m v (hfeeds.unread.trans hu)
  · rintro m ms v rfl - hv
    have hpos : 0 < v.length := List.length_pos_iff.mpr hv
    have hle := hfeeds.length_le
    rw [encodeMsgs_cons, List.length_append, List.length_append] at hle
    have hinside : ∀ k, 0 < k → k ≤ p.length → ¬Transport.cma.Cut b p.length (p.length - k) := by
      rintro k hk hkp (hend | ⟨hfile, -⟩)
      · omega
      · cases hfile
    refine ⟨hinside _ ?_ ?_, hinside _ hpos (by omega)⟩
    · rw [List.length_append]
      omega
    · rw [List.length_append]
      omega

/-- The code at the loop of a call with a packet in the memory area lets no handler read past the packet. -/
def LoopHandlersInside (b : Build) (B : Backend σ) (s : State σ) : Prop :=
  0 < s.comm.cmaRsize → s.isRepl = false → s.pipelining = true → s.peek ≠ some 0 → s.peek ≠ some 112 →
    s.comm.pqCommReadingMsg = false → HandlerReadsInside b B s

/-- What holds at a label of the call. -/
def CarriedAt (b : Build) (p : List UInt8) (room : ℕ) (sent : List UInt8) (s : State σ) : Label → Prop
  | .incoming | .loop => ∃ pk a, CarriedHead b p room sent pk a s
  | .resumeOnError | .wireFlush => ∃ pk a, Served b p room sent pk a s
  | .returnEarly => ∃ s₁ content, Replying p.length room sent s₁ ∧ s₁.comm.cmaRsize = p.length ∧
      s₁.comm.socketFile = some content ∧ s = s₁.handedOver content

/-- Arming the handler carries the reply on. -/
theorem Carried.arm (h : Carried b p room sent pk a u s) : Carried b p room sent pk true u s.arm :=
  ⟨h.1.arm, h.2.still rfl rfl (sent_note rfl)⟩

/-- Arming the handler keeps what was served. -/
theorem Served.arm (h : Served b p room sent pk a s) : Served b p room sent pk true s.arm := by
  obtain ⟨v, hzero, h⟩ := h
  exact ⟨v, hzero, h.arm⟩

/-- `wire_flush` hands over the reply, or goes back to what the handler finds. -/
theorem Served.flush (hreads : ∀ d, (B.processNotify d).reads = 0) (h : Served b p room sent pk a s) :
    wp (step b B .wireFlush) (fun next s' => ∃ l', next = some l' ∧ CarriedAt b p room sent s' l')
      (fun _ _ => True) s := by
  have C := conveyed_carried (σ := σ) b p room sent pk a
  obtain ⟨v, hzero, hleft, hreplying⟩ := h
  have hnoted : Carried b p room sent pk a v { s with trace := s.trace ++ [.wireFlush] } :=
    ⟨⟨⟨hleft.wire, hleft.repl, hleft.peek, hleft.armed, hleft.size, hleft.taken⟩, hleft.input⟩,
      hreplying.still rfl rfl (sent_note rfl)⟩
  rw [wp_step, block, wp_bind, wireFlush, wp_bind, wp_record, wp_bind]
  refine wp_mono (C.sends (sends_finishReply B hreads) hnoted) (fun _ s₁ h₁ => ?_) fun e s₁ h₁ => ?_
  · obtain ⟨content, hfile⟩ := Option.isSome_iff_exists.mp h₁.1.input.file
    rw [wp_of_ok (handOver_eq hfile)]
    exact ⟨.returnEarly, rfl, s₁, content, h₁.2, h₁.1.size rfl, hfile, rfl⟩
  · split_ifs with hhandled
    · obtain ⟨rfl, -⟩ := hhandled
      have hbreaks : Breaks (Carried b p room sent pk a) (Calling .cma p pk a) (fun u => pk = some 0 → u = p)
          (Served b p room sent pk a) .error s₁ := by
        refine ⟨C.held h₁, fun _ => .inr ⟨v, h₁, fun hpos hpk => ?_, fun _ _ h' => ⟨v, hzero, h'⟩⟩⟩
        obtain rfl := hzero hpk
        exact absurd (C.settled h₁).remaining_nil hpos.ne'
      refine wp_mono (hbreaks.handler C) ?_ fun _ _ _ => trivial
      rintro l' s' (⟨rfl, h'⟩ | ⟨rfl, h'⟩)
      · exact ⟨.incoming, rfl, pk, a, h'⟩
      · exact ⟨.wireFlush, rfl, pk, a, h'⟩

/-- **The code at a label keeps the reply in its place.** -/
theorem CarriedAt.step (hreads : ∀ d, (B.processNotify d).reads = 0) (hp : p ≠ [])
    (h : CarriedAt b p room sent s l) (hl : l ≠ .returnEarly) (hin : l = .loop → LoopHandlersInside b B s) :
    wp (step b B l) (fun next s' => ∃ l', next = some l' ∧ CarriedAt b p room sent s' l')
      (fun _ _ => True) s := by
  cases l with
  | returnEarly => exact absurd rfl hl
  | incoming =>
      obtain ⟨pk, a, hhead⟩ := h
      by_cases hb : b.sigsetjmp = true
      · rw [wp_of_ok (step_incoming hb s)]
        exact ⟨.loop, rfl, pk, true, hhead.arm (fun _ _ => Carried.arm) (fun _ => Calling.arm) fun _ => Served.arm⟩
      · rw [wp_of_ok (step_incoming_unset hb s)]
        exact ⟨.loop, rfl, pk, a, hhead⟩
  | loop =>
      obtain ⟨pk, a, hhead⟩ := h
      refine wp_mono (hhead.step (conveyed_carried b p room sent pk a) (heading_carried b hp room sent pk a) ?_)
        ?_ fun _ _ _ => trivial
      · intro hpipe hbyte hnot u hfeeds
        obtain ⟨_, -, hoffer⟩ := hhead.more hpipe
        obtain ⟨-, hrepl, hpeek, -, hsize, -⟩ := hoffer.held
        have hpos : 0 < s.comm.cmaRsize := by
          rw [hsize rfl]
          exact Int.natCast_pos.mpr (List.length_pos_iff.mpr hp)
        exact turnRead_carried hbyte.1 (hin rfl hpos hrepl hpipe (hpeek ▸ hbyte.1) (hpeek ▸ hbyte.2) hnot) hfeeds
      · rintro next s' (⟨rfl | ⟨rfl, -⟩, h'⟩ | ⟨rfl | rfl, h'⟩)
        · exact ⟨.loop, rfl, pk, a, h'⟩
        · exact ⟨.incoming, rfl, pk, a, h'⟩
        · exact ⟨.resumeOnError, rfl, pk, a, h'⟩
        · exact ⟨.wireFlush, rfl, pk, a, h'⟩
  | resumeOnError =>
      obtain ⟨pk, a, hserved⟩ := h
      have hrepl : s.isRepl = false := by
        obtain ⟨v, -, hleft, -⟩ := hserved
        exact hleft.repl
      rw [wp_step, block, wp_bind, wp_get, if_neg (by simp [hrepl])]
      exact ⟨.wireFlush, rfl, pk, a, hserved⟩
  | wireFlush =>
      obtain ⟨pk, a, hserved⟩ := h
      exact hserved.flush hreads

/-! ## What the host is told -/

/-- The reply to a packet of `r` bytes in the memory area is where `get_channel` and `interactive_read` say:
behind the packet if it fits there, and otherwise in `PGS_OUT`. -/
def ReplyKept (b : Build) (r : ℕ) (put : List UInt8) (s : State σ) : Prop :=
  if put.length ≤ b.cmaMb * 1024 * 1024 - (r + 2) then
    getChannel s = r + 2 ∧ interactiveRead s = put.length ∧ s.comm.mem.read ⟨.cma, r + 2⟩ put.length = put
  else getChannel s < 0 ∧ interactiveRead s = 0 ∧ s.comm.pgsOut = some put

/-- **The hand-over says where the reply is.** -/
theorem Replying.handedOver {content : List UInt8}
    (h : Replying r (b.cmaMb * 1024 * 1024 - (r + 2)) sent s) (hfile : s.comm.socketFile = some content)
    (hsize : s.comm.cmaRsize = r) (hfits : s.sent.length < 2147483648 + sent.length) :
    ∃ put, (s.handedOver content).returned.sent = sent ++ put ∧
      (put ≠ [] → ReplyKept b r put (s.handedOver content).returned) := by
  obtain ⟨hzero, put, hput, hplaced⟩ := h
  refine ⟨put, (sent_handedOver content s).trans hput, fun hne => ?_⟩
  have hpos : 0 < put.length := List.length_pos_iff.mpr hne
  have hlen : s.sent.length = sent.length + put.length := by rw [hput, List.length_append]
  have hdata : s.comm.socketData = put.length := by
    rw [hplaced.count]
    exact toInt32_of_range (by omega) (by omega)
  have hmore : 0 < s.comm.socketData := by omega
  rw [ReplyKept, State.handedOver]
  by_cases hsock : s.comm.sockfiles = true
  · -- the reply left the memory area
    have hover := hplaced.spilled hsock
    obtain rfl : content = put := Option.some.inj (hfile.symm.trans (hplaced.socketFile hsock))
    rw [if_neg (by omega), if_pos hsock, if_pos hmore, if_pos hmore, if_pos hmore]
    have hneg : (-1 : ℤ) < 0 := by decide
    exact ⟨hneg, hzero, rfl⟩
  · obtain ⟨-, -, hle⟩ := hplaced.area (by simpa using hsock)
    rw [if_pos hle, if_neg hsock, if_pos hmore]
    refine ⟨?_, hdata, ?_⟩
    · show s.comm.cmaRsize + 2 = _
      rw [hsize]
    · -- the request's first byte is cleared below the reply
      have hread := hplaced.read (by simpa using hsock)
      rw [Nat.add_comm 2 r] at hread
      exact (Memory.read_write_of_ge _ _ _ (by show 1 + 1 ≤ r + 2; omega)).trans hread

/-! ## The entry of a request -/

/-- A request in the memory area finds no input of an earlier one, and what is delivered before it puts nothing. -/
structure RequestMet (b : Build) (B : Backend σ) (s : State σ) : Prop where
  input : InputUsed (s.connected b).comm
  quiet : Delivers B s → (s.connected b).whereToSendOutput = .remote →
    (B.processNotify s.db).puts .notification = []

/-- A step that does not read leaves `cma_wsize` alone. -/
theorem SendMove.cmaWsize (h : SendMove s s') : s'.cmaWsize = s.cmaWsize := by
  cases h with
  | control hframe => exact hframe.cmaWsize
  | note _ | put _ _ _ | flush | closed _ _ _ _ => rfl

/-- The first message of a packet in the memory area starts an empty reply behind the packet. -/
theorem replyPlaced_startmsgread {c : Comm} (hmb : b.cmaMb < 2048) (hend : r + 2 ≤ b.cmaMb * 1024 * 1024)
    (hdrained : c.pqBufferRemainingData = 0) (hsock : c.sockfiles = false) (hsize : c.cmaRsize = r)
    (hfile : c.socketFile = some []) (hdata : c.socketData = 0) :
    ReplyPlaced (2 + r) (b.cmaMb * 1024 * 1024 - (r + 2)) [] (c.startmsgread b) := by
  rw [startmsgread_cma hdrained hsock, hsize]
  refine ⟨⟨?_, fun _ => hfile⟩, ?_, hdata, fun _ => ⟨rfl, ?_, Nat.zero_le _⟩, fun htrue => ?_⟩
  · show c.socketFile.isSome = true
    rw [hfile]
    rfl
  · rw [Comm.reply, if_neg (by simp [hsock])]
    rfl
  · have hroom : toInt32 (b.cmaEnd - (2 + (r : ℤ))) = (b.cmaMb * 1024 * 1024 - (r + 2) : ℕ) := by
      rw [Build.cmaEnd_eq hmb, toInt32_of_range (by omega) (by omega)]
      omega
    dsimp only
    rw [hroom, toSizeT_natCast (by omega)]
  · exact absurd (hsock.symm.trans htrue) (by simp)

/-- A call that meets its packet with no reply begun. -/
structure Unanswered (p : List UInt8) (s : State σ) : Prop extends Meeting .cma p s where
  packet : s.comm.mem.read ⟨.cma, 1⟩ p.length = p
  wsize : s.cmaWsize = 0
  empty : s.comm.socketFile = some []
  none : s.comm.socketData = 0

/-- A prologue that puts nothing begins no reply. -/
theorem Unanswered.prologue (hreads : ∀ d, (B.processNotify d).reads = 0) (h : Unanswered p s)
    (hquiet : Delivers B s → s.whereToSendOutput = .remote → (B.processNotify s.db).puts .notification = []) :
    wp (prologue b B) (fun _ s' => Unanswered p s' ∧ s'.pipelining = s.pipelining) (fun _ _ => True) s := by
  have hfiling : Filing s.comm := ⟨h.file, h.none.ge, by rw [h.none]; decide, fun _ => h.empty⟩
  have hpacket := h.toMeeting.prologue_packet (b := b) hreads h.packet fun hdue hremote => .inl (hquiet hdue hremote)
  have hwsize := (sends_prologue (b := b) B hreads).keeps (I := fun s => s.cmaWsize = 0)
    (fun _ _ hs hmove => hmove.cmaWsize.trans hs) h.wsize
  have hcount := hfiling.counting.moves (moves_prologue (b := b) B)
  have hkept := wp_and (wp_and (h.toMeeting.prologue (b := b) hreads) hpacket) (wp_and hwsize hcount)
  refine wp_mono (wp_and hkept (prologue_still hreads hquiet)) ?_ fun _ _ _ => trivial
  rintro _ s' ⟨⟨⟨⟨hmet, hpipe⟩, hread⟩, hzero, hcounted⟩, -, es, htrace, hsilent⟩
  -- what was put is counted, and nothing was
  obtain ⟨put, hput, hdata, hnil⟩ := hcounted.count
  have hsent : s'.sent = s.sent := by
    rw [State.sent, htrace, List.flatMap_append, hsilent, List.append_nil]
    rfl
  obtain rfl : put = [] := List.self_eq_append_right.mp (hsent.symm.trans hput)
  rw [h.none] at hdata
  exact ⟨⟨hmet, hread, hzero, (hnil rfl).trans h.empty, hdata⟩, hpipe⟩

/-- The intake of the packet begins its reply. -/
theorem Unanswered.intake (h : Unanswered p s) (hmb : b.cmaMb < 2048) (hlen : 2 ≤ p.length)
    (hend : p.length + 2 ≤ b.cmaMb * 1024 * 1024) (hpipe : s.pipelining = true) :
    wp (intake b B)
      (fun l s' => l = .incoming → Filing s'.comm ∧ s'.comm.socketData = 0 ∧
        CarriedHead b p (b.cmaMb * 1024 * 1024 - (p.length + 2)) s'.sent p.head? false s')
      (fun _ _ => True) s := by
  have hne : p ≠ [] := List.ne_nil_of_length_pos (by omega)
  have hsize : s.comm.cmaRsize = p.length := h.size rfl
  rw [wp_of_ok (intake_cma_wire (by omega) h.repl)]
  intro _
  refine ⟨⟨h.file, h.none.ge, (by show s.comm.socketData < 2147483648; rw [h.none]; decide), fun _ => h.empty⟩,
    h.none, ?_⟩
  have hoffers : Offering b .cma p.length (Left b .cma p p.head? false) (Calling .cma p p.head? false) p { s with
      peek := some (s.comm.mem .cma 1)
      whereToSendOutput := .remote
      comm := { s.comm with sockfiles := false }
      inBuf := [] } := h.toMeeting.offers_cma hne h.packet h.wire h.repl rfl h.armed rfl
  refine (hoffers.and (J := Replying p.length (b.cmaMb * 1024 * 1024 - (p.length + 2)) s.sent) ?_ ?_).atHead
    (fun _ => rfl) hpipe
  · refine ⟨h.wsize, [], (List.append_nil _).symm, ?_⟩
    exact replyPlaced_startmsgread hmb hend h.input.drained rfl hsize h.empty h.none
  · intro u s c hfeeds hreplying hreads
    exact hreplying.comm fun _ hplaced => hplaced.reads hreads hfeeds.queryfp_cma

/-- **A request meets an empty reply**: at `incoming` the packet is at the head of the loop, nothing is counted and
the socket file is empty. -/
theorem entry_carried (hreads : ∀ d, (B.processNotify d).reads = 0) (hmb : b.cmaMb < 2048)
    (hpending : Pending s.comm) (hwire : s.isWire = true) (hrepl : s.isRepl = false) (hlen : 2 ≤ p.length)
    (hend : p.length + 2 ≤ b.cmaMb * 1024 * 1024)
    (hmet : ¬0 < (s.connected b).comm.socketData → RequestMet b B s) :
    wp (entry b B)
      (fun l s' => l = .incoming → Filing s'.comm ∧ s'.comm.socketData = 0 ∧
        CarriedHead b p (b.cmaMb * 1024 * 1024 - (p.length + 2)) s'.sent p.head? false s')
      (fun _ _ => True) (s.request .cma p) := by
  have hconnected : Pending ((s.connected b).request .cma p).begin.comm := by
    have hbegin : Pending (s.request .cma p).begin.comm := hpending.request .cma p
    have hport := hbegin.connected (b := b) (Int.natCast_nonneg _)
    rwa [connected_request] at hport
  rw [entry, wp_bind, wp_modify, wp_bind, wp_get]
  split_ifs
  · exact fun hl => by cases hl
  rw [wp_bind, wp_modify, connected_request, wp_bind, wp_get]
  split_ifs with hflush
  · exact fun hl => by cases hl
  rw [wp_bind, wp_modify, wp_bind]
  obtain ⟨hinput, hquiet⟩ := hmet hflush
  obtain ⟨hfiling, hzero⟩ := hconnected.openSocketFile hflush
  have hspent : Spent s.comm.taken (s.connected b) := by
    have hsame : (s.connected b).isWire = s.isWire ∧ (s.connected b).isRepl = s.isRepl ∧
        (s.connected b).comm.taken = s.comm.taken := by
      unfold State.connected
      split_ifs <;> exact ⟨rfl, rfl, rfl⟩
    refine ⟨hsame.1.trans hwire, hsame.2.1.trans hrepl, hinput, ?_⟩
    rw [hsame.2.2]
  have hpacket :
      ((s.connected b).request .cma p).begin.comm.openSocketFile.mem.read ⟨.cma, 1⟩ p.length = p := by
    rw [(openSocketFile_frame _).2.1]
    exact Memory.read_write_self _ _ p
  have hunanswered : Unanswered p { ((s.connected b).request .cma p).begin with
      comm := ((s.connected b).request .cma p).begin.comm.openSocketFile } :=
    ⟨hspent.meeting p (fun ht => by cases ht), hpacket, rfl, hfiling.empty hzero, hzero⟩
  refine wp_mono (hunanswered.prologue hreads fun hdue hremote => ?_) ?_ fun _ _ _ => trivial
  · have hputs := hquiet (delivers_of_connected hdue) hremote
    rwa [← connected_db b s] at hputs
  · rintro _ s' ⟨h', hpipe⟩
    exact h'.intake hmb hlen hend hpipe

/-! ## Every request of a run -/

/-- A step does not lose a reply. -/
structure KeepsReply (b : Build) (B : Backend σ) (c : Config σ) (i : HostStep) : Prop where
  fits : CountFits b B c i
  resume : ∀ s, c = .idle s → i = .resume → s.comm.socketFile.isSome = true
  request : ∀ s packet, c = .idle s → i = .request .cma packet → s.isWire = true → s.isRepl = false →
    ¬0 < (s.connected b).comm.socketData → RequestMet b B s
  loop : ∀ s, c = .inside .loop s → i = .code → LoopHandlersInside b B s

/-- In a call with the packet `p`, whose replies begin behind `sent`. -/
def InCall (b : Build) (p sent : List UInt8) : Config σ → Prop
  | .inside .returnEarly s => ∃ put, s.returned.sent = sent ++ put ∧
      (put ≠ [] → ReplyKept b p.length put s.returned)
  | .inside l s => CarriedAt b p (b.cmaMb * 1024 * 1024 - (p.length + 2)) sent s l ∧ Filing s.comm ∧
      s.comm.socketData + sent.length = s.sent.length
  | .idle _ | .stopped _ _ => True

/-- The code at a label goes on with the reply, or hands it over. -/
theorem inCall_continued (hreads : ∀ d, (B.processNotify d).reads = 0) (hp : p ≠ []) (hl : l ≠ .returnEarly)
    (h : InCall b p sent (.inside l s)) (hin : l = .loop → LoopHandlersInside b B s)
    (hfits : s.comm.socketData + (continued b B l s).state.sent.length < 2147483648 + s.sent.length) :
    InCall b p sent (continued b B l s) := by
  obtain ⟨hat, hfiling, htally⟩ : CarriedAt b p (b.cmaMb * 1024 * 1024 - (p.length + 2)) sent s l ∧
      Filing s.comm ∧ s.comm.socketData + sent.length = s.sent.length := by
    cases l with
    | returnEarly => exact absurd rfl hl
    | incoming | loop | resumeOnError | wireFlush => exact h
  refine continued_spec (P := fun c => s.comm.socketData + c.state.sent.length < 2147483648 + s.sent.length →
    InCall b p sent c) ?_ hfits
  refine wp_mono (wp_and (hat.step hreads hp hl hin) (hfiling.counting.step hl)) ?_ fun e s' _ => ?_
  · rintro _ s' ⟨⟨l', rfl, hat'⟩, hcount⟩ hfits
    by_cases hl' : l' = .returnEarly
    · subst hl'
      obtain ⟨s₁, content, hreplying, hsize, hfile, rfl⟩ := hat'
      rw [Option.elim_some, Config.state, sent_handedOver] at hfits
      exact hreplying.handedOver hfile hsize (by omega)
    · have hcounted : Counting s s' := by
        rcases hcount with ⟨_, -, hcounted⟩ | ⟨hearly, -⟩
        · exact hcounted
        · exact absurd (Option.some.inj hearly) hl'
      obtain ⟨hfiling', htally'⟩ := hcounted.exact hfiling hfits
      have hall : CarriedAt b p (b.cmaMb * 1024 * 1024 - (p.length + 2)) sent s' l' ∧ Filing s'.comm ∧
          s'.comm.socketData + sent.length = s'.sent.length := ⟨hat', hfiling', by omega⟩
      cases l' with
      | returnEarly => exact absurd rfl hl'
      | incoming | loop | resumeOnError | wireFlush => exact hall
  · split_ifs <;> exact fun _ => trivial

/-- **Reply integrity**: in every run none of whose steps loses a reply, the reply to each wire request of two bytes
or more in the memory area, all that is put from its loop on, is where the host is told when the call returns. -/
theorem replies_kept (b : Build) (B : Backend σ) (hreads : ∀ d, (B.processNotify d).reads = 0)
    (hmb : b.cmaMb < 2048) (db : σ) {is : List HostStep} {packet : List UInt8} {n : ℕ} {s s₀ s₁ t : State σ}
    (hrun : Reaches (Machine b B) (.idle (State.boot db)) is (.idle s))
    (hwire : s.isWire = true) (hrepl : s.isRepl = false)
    (hlen : 2 ≤ packet.length) (hend : packet.length + 2 ≤ b.cmaMb * 1024 * 1024)
    (hrequest : Machine b B (.idle s) (.request .cma packet) (.inside .incoming s₀))
    (hcall : Path (Machine b B) (.inside .incoming s₀) (List.replicate n .code) (.inside .returnEarly s₁))
    (hreturn : Machine b B (.inside .returnEarly s₁) .code (.idle t))
    (hkeeps : Guarded (Machine b B) (KeepsReply b B) (.idle (State.boot db))
      (is ++ .request .cma packet :: List.replicate n .code)) :
    ∃ put, t.sent = s₀.sent ++ put ∧ (put ≠ [] → ReplyKept b packet.length put t) := by
  have hne : packet ≠ [] := List.ne_nil_of_length_pos (by omega)
  have hpending : Pending s.comm := counted_of_run hrun
    ((hkeeps.of_prefix (List.prefix_append is _)).mono fun _ _ hG => ⟨hG.fits, hG.resume⟩)
  have hcalled := hkeeps.after hrun
  have hmet := (hcalled [] _ (by simp) _ .nil).request s packet rfl rfl hwire hrepl
  -- the call enters its loop
  have hentered : ∀ s', entered b B (s.request .cma packet) = .inside .incoming s' →
      InCall b packet s'.sent (.inside .incoming s') := by
    refine entered_spec (P := fun c => ∀ s', c = .inside .incoming s' →
      InCall b packet s'.sent (.inside .incoming s')) ?_
    refine wp_mono (entry_carried hreads hmb hpending hwire hrepl hlen hend hmet) ?_ fun e s' _ => ?_
    · rintro l s' h' s'' hsame
      cases hsame
      obtain ⟨hfiling, hzero, hhead⟩ := h' rfl
      exact ⟨⟨packet.head?, false, hhead⟩, hfiling, by omega⟩
    · split_ifs <;> exact fun s'' hsame => by cases hsame
  have hbegun : InCall b packet s₀.sent (.inside .incoming s₀) :=
    hentered s₀ (Option.some.inj ((machine_iff b B).mp hrequest))
  -- and its code keeps the reply
  have hentry : Reaches (Machine b B) (.idle s) [.request .cma packet] (.inside .incoming s₀) := .snoc .nil hrequest
  have hguard : Guarded (Machine b B) (fun c i => KeepsReply b B c i ∧ i = .code) (.inside .incoming s₀)
      (List.replicate n .code) := fun pre i hpre u hu =>
    ⟨hcalled.after hentry pre i hpre u hu, List.eq_of_mem_replicate (hpre.subset (by simp))⟩
  have hended : InCall b packet s₀.sent (.inside .returnEarly s₁) := by
    refine hcall.reaches.inv (I := fun _ c => InCall b packet s₀.sent c) hbegun ?_ hguard
    rintro _ i c c' hin ⟨hG, rfl⟩ hstep
    cases hstep with
    | @code l s =>
        by_cases hl : l = .returnEarly
        · subst hl
          exact trivial
        · exact inCall_continued hreads hne hl hin (fun hloop => hG.loop s (by rw [hloop]) rfl) (hG.fits _ .code)
  cases hreturn
  exact hended

/-! ## Two runs -/

/-- A call on the packet `p` behind a run over `is`, with `n` steps of code before it hands over: the states in which
the host presents the packet, the loop starts, the reply is handed over and the host reads it. -/
def Config.call (b : Build) (B : Backend σ) (check : Config σ → HostStep → Bool) (is : List HostStep)
    (p : List UInt8) (n : ℕ) (c : Config σ) : Option (State σ × State σ × State σ × State σ) :=
  match c.runs b B check is with
  | some (.idle s) =>
    match (Config.idle s).runs b B check [.request .cma p] with
    | some (.inside .incoming s₀) =>
      match (Config.inside .incoming s₀).runs b B check (List.replicate n .code) with
      | some (.inside .returnEarly s₁) =>
        match continued b B .returnEarly s₁ with
        | .idle t => some (s, s₀, s₁, t)
        | _ => none
      | _ => none
    | _ => none
  | _ => none

/-- What was run is a run of the machine, guarded by the check. -/
theorem runs_of_call {check : Config σ → HostStep → Bool} {is : List HostStep} {n : ℕ} {c : Config σ}
    {s s₀ s₁ t : State σ} (h : c.call b B check is p n = some (s, s₀, s₁, t)) :
    Reaches (Machine b B) c is (.idle s) ∧
      Machine b B (.idle s) (.request .cma p) (.inside .incoming s₀) ∧
      Path (Machine b B) (.inside .incoming s₀) (List.replicate n .code) (.inside .returnEarly s₁) ∧
      Machine b B (.inside .returnEarly s₁) .code (.idle t) ∧
      Guarded (Machine b B) (fun c i => check c i = true) c (is ++ .request .cma p :: List.replicate n .code) := by
  unfold Config.call at h
  split at h
  case h_2 => cases h
  rename_i u hs
  split at h
  case h_2 => cases h
  rename_i u₀ hs₀
  split at h
  case h_2 => cases h
  rename_i u₁ hs₁
  split at h
  case h_2 => cases h
  rename_i v ht
  cases h
  have hrequest := (reaches_of_runs b B hs₀).1.path
  have hreturn : Machine b B (.inside .returnEarly s₁) .code (continued b B .returnEarly s₁) := .code
  have hall : c.runs b B check (is ++ ([.request .cma p] ++ List.replicate n .code)) =
      some (.inside .returnEarly s₁) := by
    rw [Config.runs_append, hs, Option.bind_some, Config.runs_append, hs₀, Option.bind_some, hs₁]
  refine ⟨(reaches_of_runs b B hs).1, ?_, (reaches_of_runs b B hs₁).1.path, ?_, (reaches_of_runs b B hall).2⟩
  · cases hrequest with
    | cons hfirst hrest =>
        cases hrest
        exact hfirst
  · rwa [ht] at hreturn

/-- A backend that answers each message with its type byte. -/
def Backend.echo : Backend Unit := .stateless fun m _ => ([.putbytes [m.code]], none)

/-- A check that a step of the echo loses no reply. -/
def echoes (c : Config Unit) (i : HostStep) : Bool :=
  (c.next .emscripten .echo i).all (fun c' =>
    decide (c.state.comm.socketData + c'.state.sent.length < 2147483648 + c.state.sent.length)) &&
  (match c, i with
    | .idle s, .request .cma _ => decide (InputUsed (s.connected .emscripten).comm)
    | .idle _, .resume => false
    | _, _ => true)

/-- The check on a step of a run is enough for the guard. -/
theorem keepsReply_of_echoes {c : Config Unit} {i : HostStep} (h : echoes c i = true) :
    KeepsReply .emscripten .echo c i := by
  unfold echoes at h
  obtain ⟨hfits, hrest⟩ := (Bool.and_eq_true _ _).mp h
  rw [Option.all_eq_true] at hfits
  refine ⟨fun c' hstep => ?_, ?_, ?_, ?_⟩
  · exact decide_eq_true_iff.mp (hfits c' ((machine_iff _ _).mp hstep))
  · rintro s rfl rfl
    cases hrest
  · rintro s packet rfl rfl _ _ _
    exact ⟨decide_eq_true_iff.mp hrest, fun _ _ => rfl⟩
  · rintro s rfl rfl _ _ _ _ _ _ m v _
    have hnone : s.reads .echo m = 0 := by
      obtain ⟨kind, body, -⟩ := m
      unfold State.reads Backend.answer
      split_ifs <;> cases kind <;> rfl
    rw [hnone]
    exact trivial

/-- The host switches to wire and presents a packet, whose call takes `n` steps of code. -/
def presents (p : List UInt8) (n : ℕ) : List HostStep := .useWire 1 :: .request .cma p :: List.replicate n .code

/-- The second of two Queries. -/
theorem replies_kept_query : ∃ s s₀ s₁ t, ∃ put : List UInt8,
    (Config.idle (State.boot ())).call .emscripten .echo echoes (presents Msg.query.encode 6) Msg.query.encode 5 =
      some (s, s₀, s₁, t) ∧
    t.sent = s₀.sent ++ put ∧ put ≠ [] ∧ ReplyKept .emscripten Msg.query.encode.length put t := by
  have hran : ((Config.idle (State.boot ())).call .emscripten .echo echoes (presents Msg.query.encode 6)
      Msg.query.encode 5).map (fun c => (c.1.isWire, c.1.isRepl, c.2.1.sent.length, c.2.2.2.sent.length)) =
        some (true, false, 7, 14) := by decide +kernel
  obtain ⟨⟨s, s₀, s₁, t⟩, hc, hsame⟩ := Option.map_eq_some_iff.mp hran
  simp only [Prod.mk.injEq] at hsame
  obtain ⟨hwire, hrepl, hbefore, hafter⟩ := hsame
  obtain ⟨hrun, hrequest, hcall, hreturn, hguard⟩ := runs_of_call hc
  obtain ⟨put, hput, hkept⟩ := replies_kept .emscripten .echo (fun _ => rfl) (by decide) () hrun hwire hrepl
    (by decide) (by decide) hrequest hcall hreturn (hguard.mono fun _ _ => keepsReply_of_echoes)
  have hne : put ≠ [] := by
    rintro rfl
    rw [hput, List.append_nil, hbefore] at hafter
    cases hafter
  exact ⟨s, s₀, s₁, t, put, hc, hput, hne, hkept hne⟩

/-- Sync, Terminate and Query. -/
def farewellPacket : List UInt8 := [83, 0, 0, 0, 4, 88, 0, 0, 0, 4, 81, 0, 0, 0, 5, 0]

/-- The reply of a Query is not kept in a call that a Terminate ends. -/
theorem not_replyKept_farewell : ∃ s s₀ s₁ t : State Unit,
    Reaches (Machine .emscripten .echo) (.idle (State.boot ())) (presents farewellPacket 5) (.idle s) ∧
    s.isWire = true ∧ s.isRepl = false ∧
    Machine .emscripten .echo (.idle s) (.request .cma farewellPacket) (.inside .incoming s₀) ∧
    Path (Machine .emscripten .echo) (.inside .incoming s₀) (List.replicate 5 .code) (.inside .returnEarly s₁) ∧
    Machine .emscripten .echo (.inside .returnEarly s₁) .code (.idle t) ∧
    ¬∃ put, t.sent = s₀.sent ++ put ∧ (put ≠ [] → ReplyKept .emscripten farewellPacket.length put t) := by
  have hran : ((Config.idle (State.boot ())).call .emscripten .echo (fun _ _ => true) (presents farewellPacket 5)
      farewellPacket 5).map (fun c => (c.1.isWire, c.1.isRepl, c.2.1.sent, c.2.2.2.sent,
        c.2.2.2.comm.mem.read ⟨.cma, 18⟩ 7)) =
        some (true, false, [83, 90, 0, 0, 0, 5, 73], [83, 90, 0, 0, 0, 5, 73, 81, 90, 0, 0, 0, 5, 73],
          [83, 90, 0, 0, 0, 5, 73]) := by decide +kernel
  obtain ⟨⟨s, s₀, s₁, t⟩, hc, hsame⟩ := Option.map_eq_some_iff.mp hran
  simp only [Prod.mk.injEq] at hsame
  obtain ⟨hwire, hrepl, hbefore, hafter, hmem⟩ := hsame
  obtain ⟨hrun, hrequest, hcall, hreturn, -⟩ := runs_of_call hc
  refine ⟨s, s₀, s₁, t, hrun, hwire, hrepl, hrequest, hcall, hreturn, ?_⟩
  rintro ⟨put, hput, hkept⟩
  -- the reply is to the Query that the first call left, but the old reply stands where it is to be
  obtain rfl : put = [81, 90, 0, 0, 0, 5, 73] := by
    have hput : [(83 : UInt8), 90, 0, 0, 0, 5, 73] ++ [81, 90, 0, 0, 0, 5, 73] = [83, 90, 0, 0, 0, 5, 73] ++ put := by
      rwa [hbefore, hafter] at hput
    exact (List.append_cancel_left hput).symm
  have hplaced := hkept (by decide)
  rw [ReplyKept, if_pos (by decide)] at hplaced
  have hreply : t.comm.mem.read ⟨.cma, 18⟩ 7 = [81, 90, 0, 0, 0, 5, 73] := hplaced.2.2
  rw [hmem] at hreply
  exact absurd hreply (by decide)

end PgliteBuild
