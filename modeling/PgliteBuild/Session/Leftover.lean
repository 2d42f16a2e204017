import PgliteBuild.Session.AuthGate
import PgliteBuild.Session.Call
import PgliteBuild.Session.Repl
import PgliteBuild.Session.Streams

/-! # What a call leaves unread

A call that returns must leave nothing of its packet in the receive buffer or in the socket file. The
invariant of the loop is that the packet is split: its first bytes were taken, and the rest is what the
readers will find (`Presents`). It is an instance of the invariants that the code conveys, so a call
leaves nothing unless one of its exits does: a Terminate or a bad length word in front of the end, a
startup packet in a socket file, a message end where the receive buffer runs dry. -/

namespace PgliteBuild

open BlockMemory Effect Framing Runs

variable {σ α : Type} {b : Build} {B : Backend σ} {t : Transport} {pk : Option UInt8} {a : Bool}
  {p u v : List UInt8} {s s' : State σ}

/-! ## A packet in the connection -/

/-- The packet `p` was taken but for `u`, which is next. -/
structure Presents (b : Build) (t : Transport) (p u : List UInt8) (c : Comm) : Prop
    extends Settled b t p.length u c, Wired t c where
  once : c.taken ++ u = p

/-- Reading goes on in the packet. -/
theorem Wired.presents {c c' : Comm} (h : Wired t c) (hfeeds : Feeds b t p.length u c)
    (honce : c.taken ++ u = p) (hsettled : Settled b t p.length v c') (hreads : Reads c c') :
    Presents b t p v c' := by
  refine ⟨hsettled, h.reads hfeeds hreads, ?_⟩
  have hstream := hreads.stream
  rwa [hsettled.unread, hfeeds.unread, honce] at hstream

/-- A send leaves the packet as it is presented. -/
theorem Presents.send {c : Comm} (h : Presents b t p u c) (op : SendOp) : Presents b t p u (c.send op) := by
  have hsame := sameInput_send h.apart op
  have htaken : (c.send op).taken = c.taken := (congrArg Comm.taken hsame.same :)
  exact ⟨h.toSettled.of_sameInput hsame, h.toWired.send op, by rw [htaken]; exact h.once⟩

/-- Sends leave the packet as it is presented. -/
theorem Presents.sends {c : Comm} (h : Presents b t p u c) (ops : List SendOp) :
    Presents b t p u (ops.foldl Comm.send c) := by
  induction ops generalizing c with
  | nil => exact h
  | cons op ops ih => exact ih (h.send op)

/-- Whether a message is being read does not matter. -/
theorem Presents.reading {c : Comm} (h : Presents b t p u c) (flag : Bool) :
    Presents b t p u { c with pqCommReadingMsg := flag } :=
  ⟨h.toSettled.reading flag, ⟨h.apart, h.file, h.sockfiles, h.shut⟩, h.once⟩

/-! ## The call of a packet -/

/-- A wire call with the packet `p`, in an activation with the given first byte and with its handler set
or not. -/
structure Calling (t : Transport) (p : List UInt8) (pk : Option UInt8) (a : Bool) (s : State σ) : Prop where
  wire : s.isWire = true
  repl : s.isRepl = false
  peek : s.peek = pk
  armed : s.armed = a
  size : t = .cma → s.comm.cmaRsize = p.length
  taken : s.comm.taken <+: p

/-- Steps that do not read stay in the call. -/
theorem Calling.send (h : Calling t p pk a s) (hmove : SendMove s s') : Calling t p pk a s' := by
  have hside := hmove.recvSide
  have hsize : s'.comm.cmaRsize = s.comm.cmaRsize := (congrArg Comm.cmaRsize hside :)
  have htaken : s'.comm.taken = s.comm.taken := (congrArg Comm.taken hside :)
  have hframe : s'.isWire = s.isWire ∧ s'.isRepl = s.isRepl ∧ s'.peek = s.peek ∧ s'.armed = s.armed := by
    cases hmove with
    | control hframe => exact ⟨hframe.isWire, hframe.isRepl, hframe.peek, hframe.armed⟩
    | note _ => exact ⟨rfl, rfl, rfl, rfl⟩
    | put source ops _ => exact ⟨rfl, rfl, rfl, rfl⟩
    | flush => exact ⟨rfl, rfl, rfl, rfl⟩
    | closed events _ _ _ => exact ⟨rfl, rfl, rfl, rfl⟩
  obtain ⟨hwire, hrepl, hpeek, harmed⟩ := hframe
  refine ⟨hwire.trans h.wire, hrepl.trans h.repl, hpeek.trans h.peek, harmed.trans h.armed, ?_, ?_⟩
  · rw [hsize]
    exact h.size
  · rw [htaken]
    exact h.taken

/-- In the call of the packet `p`, `u` is left of it. -/
structure Left (b : Build) (t : Transport) (p : List UInt8) (pk : Option UInt8) (a : Bool) (u : List UInt8)
    (s : State σ) : Prop extends Calling t p pk a s where
  input : Presents b t p u s.comm

/-- Reading stays in the call. -/
theorem Calling.read {c : Comm} (h : Calling t p pk a s) (hsize : c.cmaRsize = s.comm.cmaRsize)
    (hinput : Presents b t p v c) : Left b t p pk a v { s with comm := c } := by
  refine ⟨⟨h.wire, h.repl, h.peek, h.armed, ?_, ⟨v, hinput.once⟩⟩, hinput⟩
  intro ht
  exact hsize.trans (h.size ht)

/-- A packet is offered when `pq_startmsgread` finds it. -/
theorem Calling.offers (h : Calling t p pk a s)
    (hstart : Feeds b t p.length u (s.comm.startmsgread b) ∧ Wired t (s.comm.startmsgread b) ∧
      s.comm.taken ++ u = p) :
    Offering b t p.length (Left b t p pk a) (Calling t p pk a) u s := by
  obtain ⟨hfeeds, hwired, honce⟩ := hstart
  refine ⟨h, fun _ => hfeeds, fun _ v c hsettled hreads => ?_⟩
  have hsize : c.cmaRsize = s.comm.cmaRsize :=
    (congrArg Comm.cmaRsize hreads.same :).trans (startmsgread_cmaRsize b s.comm)
  have htaken := (startmsgread_frame b s.comm).2.2.2.2
  exact h.read hsize (hwired.presents hfeeds (by rw [htaken]; exact honce) hsettled hreads)

/-- **The split of the packet is conveyed by the code.** -/
theorem conveyed_left (b : Build) (t : Transport) (p : List UInt8) (pk : Option UInt8) (a : Bool) :
    Conveyed (σ := σ) b t p.length pk a (Left b t p pk a) (Calling t p pk a) where
  held h := h.toCalling
  frame h := ⟨h.wire, h.repl, h.peek, h.armed⟩
  size h := h.size
  settled h := h.input.toSettled
  send h hmove := by
    refine ⟨h.toCalling.send hmove, ?_⟩
    cases hmove with
    | control hframe =>
        rw [hframe.comm]
        exact h.input
    | note _ => exact h.input
    | put source ops _ => exact h.input.sends ops
    | flush => exact h.input.send .flush
    | closed events hnone _ _ =>
        have hfile := h.input.file
        rw [hnone] at hfile
        cases hfile
  sendHeld h hmove := h.send hmove
  read h hsettled hreads :=
    h.toCalling.read (congrArg Comm.cmaRsize hreads.same :)
      (h.input.toWired.presents h.input.toFeeds h.input.once hsettled hreads)
  reading flag h := ⟨⟨h.wire, h.repl, h.peek, h.armed, h.size, h.taken⟩, h.input.reading flag⟩
  start h hu := by
    have hmid := h.input.toSettled.midway h.input.sockfiles hu
    exact h.toCalling.offers ⟨h.input.toFeeds.startmsgread hmid, h.input.toWired.startmsgread hmid,
      h.input.once⟩

/-! ## Turns that stay inside the packet -/

/-- The receive buffer is empty behind the next `k` bytes. -/
def Comm.RunsDry (b : Build) (c : Comm) (k : ℕ) : Prop :=
  c.pqBufferRemainingData ≤ k ∧ b.recvBufferSize ∣ k - c.pqBufferRemainingData

/-- Inside a packet the receive buffer runs dry at the cuts. -/
theorem Feeds.runsDry_of_cut {c : Comm} (h : Feeds b t n (u ++ v) c) (hu : u ≠ []) (hv : v ≠ [])
    (hcut : t.Cut b n (n - v.length)) : c.RunsDry b u.length := by
  have hpos : 0 < u.length := List.length_pos_iff.mpr hu
  have hpos' : 0 < v.length := List.length_pos_iff.mpr hv
  have hle := h.length_le
  have hlen := h.length_eq
  rw [List.length_append] at hle hlen
  have hedge : n - c.ahead ≤ n - v.length := by
    apply h.inside _ hcut
    rw [List.length_append]
    omega
  obtain ⟨-, hdvd⟩ := hcut.resolve_left (by omega)
  obtain ⟨-, hdvd'⟩ := h.edge.resolve_left (by omega)
  refine ⟨by omega, ?_⟩
  have hsub : u.length - c.pqBufferRemainingData = n - v.length - (n - c.ahead) := by omega
  rw [hsub]
  exact Nat.dvd_sub hdvd hdvd'

/-- The next message of the loop and what its handler reads stay inside the packet, and nothing is lost
of what follows them: the message is no Terminate, the length word is in range, and the receive buffer
does not run dry behind it. -/
structure TurnInside (b : Build) (B : Backend σ) (s : State σ) : Prop where
  terminate : ∀ (m : Msg) v, (s.comm.startmsgread b).unread = m.encode ++ v → m.kind = .terminate → v = []
  badLength : ∀ (m : FrontendMsg) w v, (s.comm.startmsgread b).unread = m.code :: w →
    readBody m.maxlen w = .badLength v → v = []
  inside : ∀ (m : Msg) v, (s.comm.startmsgread b).unread = m.encode ++ v → StaysInside (s.reads B m) v
  buffer : ∀ (m : Msg) ms v, (s.comm.startmsgread b).unread = encodeMsgs (m :: ms) ++ v →
    ms.length = s.reads B m → v ≠ [] →
      ¬(s.comm.startmsgread b).RunsDry b m.encode.length ∧
        ¬(s.comm.startmsgread b).RunsDry b (encodeMsgs (m :: ms)).length

/-- Such a turn leaves nothing of the packet when the loop ends. -/
theorem TurnInside.turnRead {I : List UInt8 → State σ → Prop} {D : State σ → Prop} {n : ℕ}
    (h : TurnInside b B s) (hD : ∀ s', I [] s' → D s') (hfeeds : Feeds b t n u (s.comm.startmsgread b)) :
    TurnRead b B t n I D u s := by
  obtain ⟨hterminate, hbad, hinside, hbuffer⟩ := h
  rw [hfeeds.unread] at hterminate hbad hinside hbuffer
  refine ⟨fun m v hu hkind => ?_, fun m w v hu hfound => ?_, hinside, ?_⟩
  · obtain rfl := hterminate m v hu hkind
    exact hD
  · obtain rfl := hbad m w v hu hfound
    exact hD
  · -- behind the message and behind what its handler reads, the buffer runs dry only with the packet
    rintro m ms v rfl hlen hv
    obtain ⟨hdry, hdry'⟩ := hbuffer m ms v rfl hlen hv
    refine ⟨fun hcut => hdry ?_, fun hcut => hdry' ?_⟩
    · rw [encodeMsgs_cons, List.append_assoc] at hfeeds
      exact hfeeds.runsDry_of_cut (by simp [Msg.encode]) (by simp [hv]) hcut
    · exact hfeeds.runsDry_of_cut (by simp [Msg.encode]) hv hcut

/-- The password packet is all of its packet. -/
def PasswordAlone (p : List UInt8) : Prop :=
  ∀ body v, readBody 65535 p.tail = .body body v → v = []

/-- The way a packet goes by its first byte leaves nothing of it. -/
structure UsedUp (t : Transport) (pk : Option UInt8) (p : List UInt8) : Prop where
  startup : pk = some 0 → t = .cma ∧ p ≠ []
  password : pk = some 112 → PasswordAlone p

/-- What the code at the loop is about to read stays inside the packet. -/
def LoopReadsInside (b : Build) (B : Backend σ) (s : State σ) : Prop :=
  s.pipelining = true → s.peek ≠ some 0 → s.peek ≠ some 112 → s.comm.pqCommReadingMsg = false → TurnInside b B s

/-- An error raised at the head of the loop finds the handler: the build has one, or no error is raised. -/
def CatchesErrors (b : Build) (B : Backend σ) (s : State σ) : Prop :=
  b.sigsetjmp = true ∨ ∀ s', block b B .loop s ≠ .error .error s'

/-- At the head of the loop, in a call of the packet `p` that leaves nothing of it: a startup or a password
packet is met at its byte 0. -/
abbrev LeftHead (b : Build) (t : Transport) (p : List UInt8) (pk : Option UInt8) (a : Bool) :
    State σ → Prop :=
  AtHead b t p.length (Left b t p pk a) (Calling t p pk a) (fun u => pk = some 0 ∨ pk = some 112 → u = p)
    (Left b t p pk a [])

/-- A packet that is used up is a stream that the head of the loop can read. -/
theorem UsedUp.heading (h : UsedUp t pk p) :
    Heading (σ := σ) t p.length pk (Left b t p pk a) (fun u => pk = some 0 ∨ pk = some 112 → u = p)
      (Left b t p pk a []) where
  ended h := h
  startup hQ hpk := by
    obtain rfl := hQ (.inl hpk)
    exact ⟨(h.startup hpk).1, (h.startup hpk).2, rfl⟩
  password hQ hpk hfound := by
    obtain rfl := hQ (.inr hpk)
    obtain rfl := h.password hpk _ _ hfound
    exact ⟨fun hne => absurd rfl hne, fun _ hleft => hleft⟩
  serving hbyte _ hpk := absurd hpk (not_or.mpr hbyte)

/-- **The loop leaves nothing of a packet** that it reads turn by turn, with the handler set where the build has
one. -/
theorem leftHead_step (h : LeftHead b t p pk a s) (hused : UsedUp t pk p) (harmed : a = b.sigsetjmp)
    (hcatch : CatchesErrors b B s) (hin : LoopReadsInside b B s) :
    wp (step b B .loop)
      (fun next s' => (next = some .loop ∨ next = some .incoming ∧ b.sigsetjmp = true) ∧
          LeftHead b t p pk a s' ∨
        (next = some .resumeOnError ∨ next = some .wireFlush) ∧ Left b t p pk a [] s')
      (fun e s' => Calling t p pk a s' ∧ e ≠ .error) s := by
  have hturn : s.pipelining = true → pk ≠ some 0 ∧ pk ≠ some 112 → s.comm.pqCommReadingMsg = false →
      ∀ u, Feeds b t p.length u (s.comm.startmsgread b) →
        TurnRead b B t p.length (Left b t p pk a) (Left b t p pk a []) u s := by
    intro hpipe hbyte hnot u hfeeds
    obtain ⟨_, -, hoffer⟩ := h.more hpipe
    have hpeek : s.peek = pk := hoffer.held.peek
    exact (hin hpipe (hpeek ▸ hbyte.1) (hpeek ▸ hbyte.2) hnot).turnRead (fun _ h' => h') hfeeds
  refine wp_mono (h.step (conveyed_left b t p pk a) hused.heading hturn) ?_ ?_
  · rintro next s' (⟨hnext, h'⟩ | h')
    · exact .inl ⟨hnext.imp_right fun hl => ⟨hl.1, harmed.symm.trans hl.2⟩, h'⟩
    · exact .inr h'
  · rintro e s' ⟨hheld, herror⟩
    refine ⟨hheld, fun he => ?_⟩
    obtain ⟨hunset, hresult⟩ := herror he
    rcases hcatch with hjmp | hnone
    · rw [← harmed, hunset] at hjmp
      cases hjmp
    · subst he
      exact hnone s' hresult

/-! ## Nothing unread -/

/-- No input is left unread: the receive buffer is used up, and no socket file is open for reading. -/
def InputUsed (c : Comm) : Prop := c.pqRecvPointer = c.pqRecvLength ∧ c.querylen = 0 ∧ c.queryfp = none

instance (c : Comm) : Decidable (InputUsed c) := inferInstanceAs (Decidable (_ ∧ _ ∧ _))

/-- Input depends on the receive side only. -/
theorem InputUsed.of_recvSide {c c' : Comm} (h : InputUsed c) (hside : c'.recvSide = c.recvSide) :
    InputUsed c' := by
  have hptr : c'.pqRecvPointer = c.pqRecvPointer := (congrArg Comm.pqRecvPointer hside :)
  have hlen : c'.pqRecvLength = c.pqRecvLength := (congrArg Comm.pqRecvLength hside :)
  have hquery : c'.querylen = c.querylen := (congrArg Comm.querylen hside :)
  have hfp : c'.queryfp = c.queryfp := (congrArg Comm.queryfp hside :)
  exact ⟨by rw [hptr, hlen]; exact h.1, hquery.trans h.2.1, hfp.trans h.2.2⟩

/-- Used up input is no input for the next message. -/
theorem InputUsed.drained {c : Comm} (h : InputUsed c) : c.pqBufferRemainingData = 0 := by
  rw [Comm.pqBufferRemainingData, h.1, Nat.sub_self]

/-- At the end of the packet no input is left. -/
theorem Presents.inputUsed {c : Comm} (h : Presents b t p [] c) : InputUsed c := by
  have hfp := h.toFeeds.queryfp_nil
  exact ⟨le_antisymm h.le (Nat.sub_eq_zero_iff_le.mp h.toFeeds.remaining_nil), h.shut hfp, hfp⟩

/-- A wire call or the time behind it, in which no input is left of the packet `p`. -/
structure Spent (p : List UInt8) (s : State σ) : Prop where
  wire : s.isWire = true
  repl : s.isRepl = false
  input : InputUsed s.comm
  taken : s.comm.taken <+: p

/-- With nothing left the input is spent. -/
theorem Left.spent (h : Left b t p pk a [] s) : Spent p s := ⟨h.wire, h.repl, h.input.inputUsed, h.taken⟩

/-! ## Meeting a request -/

/-- A wire call that has not looked at its packet yet. -/
structure Meeting (t : Transport) (p : List UInt8) (s : State σ) : Prop extends Calling t p none false s where
  input : InputUsed s.comm
  untaken : s.comm.taken = []
  file : s.comm.socketFile.isSome = true
  presented : t = .file → s.comm.cmaRsize = 0 ∧ s.comm.pgsIn = some p

/-- A call that has met no input finds it spent. -/
theorem Meeting.spent (h : Meeting t p s) : Spent p s := ⟨h.wire, h.repl, h.input, h.taken⟩

/-- Steps that do not read leave the request alone. -/
theorem Meeting.send (h : Meeting t p s) (hmove : SendMove s s') : Meeting t p s' := by
  have hside := hmove.recvSide
  have htaken : s'.comm.taken = s.comm.taken := (congrArg Comm.taken hside :)
  have hsize : s'.comm.cmaRsize = s.comm.cmaRsize := (congrArg Comm.cmaRsize hside :)
  have hpgs : s'.comm.pgsIn = s.comm.pgsIn := (congrArg Comm.pgsIn hside :)
  refine ⟨h.toCalling.send hmove, h.input.of_recvSide hside, htaken.trans h.untaken, ?_, ?_⟩
  · cases hmove with
    | control hframe =>
        rw [hframe.comm]
        exact h.file
    | note _ => exact h.file
    | put source ops hfile =>
        have hfold : ∀ (ops : List SendOp) (c : Comm), c.socketFile.isSome = true →
            (ops.foldl Comm.send c).socketFile.isSome = true := by
          intro ops
          induction ops with
          | nil => exact fun _ hc => hc
          | cons op ops ih => exact fun c hc => ih _ (by simpa using hc)
        exact hfold ops _ hfile
    | flush => exact (Comm.send_socketFile_isSome s.comm .flush).trans h.file
    | closed events hnone _ _ =>
        have hfile := h.file
        rw [hnone] at hfile
        cases hfile
  · rw [hsize, hpgs]
    exact h.presented

/-! ## Notifications before the packet is looked at -/

/-- Nothing that is put now lands in a packet of `n` bytes in the memory area. -/
def Comm.Aside (n : ℕ) (c : Comm) : Prop :=
  c.sockfiles = true ∨ c.pqSendBuffer.block ≠ .cma ∨ 1 + n ≤ c.pqSendBuffer.offset + c.pqSendPointer

instance (n : ℕ) (c : Comm) : Decidable (c.Aside n) := inferInstanceAs (Decidable (_ ∨ _ ∨ _))

/-- The packet in the memory area, with nothing to land in it. -/
def Spared (p : List UInt8) (c : Comm) : Prop := c.Aside p.length ∧ c.mem.read ⟨.cma, 1⟩ p.length = p

/-- Copying bytes out to the memory area spares the packet. -/
theorem Spared.copyOut {c : Comm} (h : Spared p c) (hsock : ¬c.sockfiles = true) (bytes : List UInt8) :
    Spared p (c.copyOut bytes) := by
  obtain ⟨haside, hread⟩ := h
  rcases haside.resolve_left hsock with hblock | hle
  · exact ⟨.inr (.inl hblock), (Memory.read_write_of_ne _ _ _ (fun h => hblock h.symm)).trans hread⟩
  · refine ⟨.inr (.inr ?_), (Memory.read_write_of_le _ _ hle).trans hread⟩
    show 1 + p.length ≤ c.pqSendBuffer.offset + (c.pqSendPointer + bytes.length)
    omega

/-- Putting bytes spares the packet. -/
theorem Spared.putbytes {c : Comm} (h : Spared p c) (bytes : List UInt8) : Spared p (c.putbytes bytes) := by
  unfold Comm.putbytes
  by_cases hsock : c.sockfiles = true
  · rw [if_pos hsock]
    exact ⟨.inl hsock, h.2⟩
  rw [if_neg hsock]
  split_ifs
  · exact h
  · exact h.copyOut hsock bytes
  · exact ⟨.inl rfl, h.2⟩
  · exact ⟨.inl rfl, (h.copyOut hsock (bytes.take c.room)).2⟩

/-- A send spares the packet. -/
theorem Spared.send {c : Comm} (h : Spared p c) (op : SendOp) : Spared p (c.send op) := by
  cases op with
  | putbytes bytes => exact h.putbytes bytes
  | flush =>
      rw [Comm.send]
      split_ifs with hsock
      · exact ⟨.inl hsock, h.2⟩
      · exact h

/-- Sends spare the packet. -/
theorem Spared.sends {c : Comm} (h : Spared p c) (ops : List SendOp) : Spared p (ops.foldl Comm.send c) := by
  induction ops generalizing c with
  | nil => exact h
  | cons op ops ih => exact ih (h.send op)

/-- A response that puts nothing leaves the memory alone. -/
theorem respond_still {source : Source} {r : Response σ} (hreads : r.reads = 0)
    (hputs : s.whereToSendOutput = .remote → r.puts source = []) :
    wp (respond b source r) (fun _ s' => s'.comm.mem = s.comm.mem ∧ s'.trace = s.trace)
      (fun _ s' => s'.comm.mem = s.comm.mem ∧ s'.trace = s.trace) s := by
  have hactions : ∃ n, (if s.whereToSendOutput = .remote then runActions b source r.actions else pure ()) s =
      .ok () { s with comm := { s.comm with pqSendPointer := n } } := by
    split_ifs with hremote
    · exact runActions_flush _ (eq_flush_of_puts hreads (hputs hremote)) s
    · exact ⟨s.comm.pqSendPointer, rfl⟩
  obtain ⟨n, hn⟩ := hactions
  have hrespond := respond_eq hn
  cases herror : r.error with
  | none =>
      rw [herror] at hrespond
      rw [wp_of_ok hrespond]
      exact ⟨rfl, rfl⟩
  | some e =>
      rw [herror] at hrespond
      rw [wp_of_error hrespond]
      exact ⟨rfl, rfl⟩

/-- The notifications that a call delivers before it looks at its packet do not land in it. -/
def NotifiesAside (b : Build) (B : Backend σ) (n : ℕ) (s : State σ) : Prop :=
  Delivers B s → (s.connected b).whereToSendOutput = .remote →
    (B.processNotify s.db).puts .notification = [] ∨ (s.connected b).comm.Aside n

section Prologue

variable (hreads : ∀ d, (B.processNotify d).reads = 0)

include hreads

/-- Without bytes put, the prologue leaves the memory alone. -/
theorem prologue_still (hputs : Delivers B s → s.whereToSendOutput = .remote →
    (B.processNotify s.db).puts .notification = []) :
    wp (prologue b B) (fun _ s' => s'.comm.mem = s.comm.mem ∧
      ∃ es, s'.trace = s.trace ++ es ∧ es.flatMap Event.bytes = []) (fun _ _ => True) s := by
  have hquiet : ∃ es : List Event, s.trace = s.trace ++ es ∧ es.flatMap Event.bytes = [] :=
    ⟨[], (List.append_nil _).symm, rfl⟩
  rw [prologue, wp_bind, wp_get]
  split_ifs with hready
  · rw [wp_bind, wp_get, wp_bind, wp_get]
    dsimp only
    split_ifs with hdue
    · rw [wp_bind, processNotifyInterrupt, wp_bind, wp_record, wp_bind, wp_get, if_pos hdue.1, wp_bind, wp_modify,
        wp_bind, wp_get]
      refine wp_mono (respond_still (hreads s.db) (hputs ⟨hready, hdue⟩)) ?_ fun _ _ _ => trivial
      rintro _ s' ⟨hmem, htrace⟩
      exact ⟨hmem, [.raising .processNotifyInterrupt], htrace, rfl⟩
    · exact ⟨rfl, hquiet⟩
  · exact ⟨rfl, hquiet⟩

/-- The prologue keeps the packet in the memory area. -/
theorem Meeting.prologue_packet (h : Meeting t p s) (hmem : s.comm.mem.read ⟨.cma, 1⟩ p.length = p)
    (haside : Delivers B s → s.whereToSendOutput = .remote →
      (B.processNotify s.db).puts .notification = [] ∨ s.comm.Aside p.length) :
    wp (prologue b B) (fun _ s' => s'.comm.mem.read ⟨.cma, 1⟩ p.length = p) (fun _ _ => True) s := by
  by_cases hspared : s.comm.Aside p.length
  · have hkept : wp (prologue b B) (fun _ s' => Meeting t p s' ∧ Spared p s'.comm)
        (fun _ s' => Meeting t p s' ∧ Spared p s'.comm) s := by
      refine (sends_prologue B hreads).keeps (I := fun s => Meeting t p s ∧ Spared p s.comm) ?_
        ⟨h, hspared, hmem⟩
      rintro s s' ⟨hmeeting, hs⟩ hmove
      refine ⟨hmeeting.send hmove, ?_⟩
      cases hmove with
      | control hframe =>
          rw [hframe.comm]
          exact hs
      | note _ => exact hs
      | put source ops _ => exact hs.sends ops
      | flush => exact hs.send .flush
      | closed events hnone _ _ =>
          have hfile := hmeeting.file
          rw [hnone] at hfile
          cases hfile
    exact wp_mono hkept (fun _ _ h' => h'.2.2) fun _ _ _ => trivial
  · -- nothing is put
    have hputs := fun hdue hremote => (haside hdue hremote).resolve_right hspared
    refine wp_mono (prologue_still hreads hputs) (fun _ s' h' => ?_) fun _ _ _ => trivial
    rw [h'.1]
    exact hmem

/-- The prologue leaves the request as it is. -/
theorem Meeting.prologue (h : Meeting t p s) :
    wp (prologue b B) (fun _ s' => Meeting t p s' ∧ s'.pipelining = s.pipelining)
      (fun _ s' => Meeting t p s') s := by
  have hlast : KeepsPipelining (modify fun s => { s with sendReadyForQuery := false } : PgM σ Unit) :=
    keepsPipelining_modify fun _ => rfl
  have hnotify : KeepsPipelining (processNotifyInterrupt b B) := by
    refine performs_bind (keepsPipelining_modify fun _ => rfl) fun _ => performs_bind performs_get fun s => ?_
    refine performs_ite (performs_bind (keepsPipelining_modify fun _ => rfl) fun _ => ?_) (performs_pure _)
    exact performs_bind performs_get fun s => keepsPipelining_respond _ _
  have hkeeps : KeepsPipelining (PgliteBuild.prologue b B) := by
    refine performs_bind performs_get fun s => performs_ite ?_ (performs_pure _)
    refine performs_bind performs_get fun s => performs_bind performs_get fun s' => ?_
    dsimp only
    split
    · exact performs_bind hnotify fun _ => hlast
    · exact hlast
  have hsends := (sends_prologue (b := b) B hreads).keeps (I := Meeting t p) (fun _ _ h hmove => h.send hmove) h
  exact wp_mono (wp_and hsends (hkeeps.spec s)) (fun _ _ h' => h') fun _ _ h' => h'.1

end Prologue

end PgliteBuild
