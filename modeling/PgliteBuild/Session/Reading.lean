import PgliteBuild.Pqcomm.Send
import PgliteBuild.Session.Basic

/-! # Complete messages, read one by one

Between two messages of a packet the connection is `Midway`: no message is being read, the rest of the
packet is the stream, and the reply cannot reach the receive buffer. Sending keeps that, and reading one
complete message goes from one such point to the next (`Midway.readMessage`). At the start of a packet
it is the first `pq_startmsgread` that gets there, so reading is stated for `Offers`. -/

namespace PgliteBuild

open Effect Framing

variable {b : Build} {t : Transport} {n : ℕ} {u : List UInt8} {c : Comm}

/-- The next `pq_startmsgread` finds the stream `u`. -/
structure Offers (b : Build) (t : Transport) (n : ℕ) (u : List UInt8) (c : Comm) : Prop where
  notReading : c.pqCommReadingMsg = false
  feeds : Feeds b t n u (c.startmsgread b)
  apart : SendsApart (c.startmsgread b)
  file : c.socketFile.isSome = true
  sockfiles : t = .file → c.sockfiles = true
  shut : c.queryfp = none → c.querylen = 0
  /-- The bytes taken since the request came are those that are no longer offered. -/
  once : c.taken.length + u.length = n

/-- Between two messages of a packet, with `u` left of it. -/
structure Midway (b : Build) (t : Transport) (n : ℕ) (u : List UInt8) (c : Comm) : Prop
    extends Settled b t n u c where
  notReading : c.pqCommReadingMsg = false
  apart : SendsApart c
  file : c.socketFile.isSome = true
  sockfiles : t = .file → c.sockfiles = true
  shut : c.queryfp = none → c.querylen = 0
  once : c.taken.length + u.length = n

/-- A reply can be put: the socket file is open, the reply does not reach the receive buffer, and a socket
file that was read to its end is closed. -/
structure Wired (t : Transport) (c : Comm) : Prop where
  apart : SendsApart c
  file : c.socketFile.isSome = true
  sockfiles : t = .file → c.sockfiles = true
  shut : c.queryfp = none → c.querylen = 0

/-- A send leaves the connection wired. -/
theorem Wired.send (h : Wired t c) (op : SendOp) : Wired t (c.send op) := by
  have hsame := sameInput_send h.apart op
  have hfp : (c.send op).queryfp = c.queryfp := (congrArg Comm.queryfp hsame.same :)
  have hlen : (c.send op).querylen = c.querylen := (congrArg Comm.querylen hsame.same :)
  have hsock : c.sockfiles = true → (c.send op).sockfiles = true := by
    intro hsock
    cases op with
    | putbytes s => simp [Comm.send, Comm.putbytes, Comm.spill, hsock]
    | flush => simp [Comm.send, hsock]
  refine ⟨h.apart.send op, by simpa using h.file, fun ht => hsock (h.sockfiles ht), ?_⟩
  rw [hfp, hlen]
  exact h.shut

/-- Reading leaves the reply apart from the receive buffer, which it never makes longer. -/
theorem SendsApart.reads {c' : Comm} (h : SendsApart c) (hreads : Reads c c')
    (hstill : c.sockfiles = false → c.queryfp = none) : SendsApart c' := by
  have hsock : c'.sockfiles = c.sockfiles := (congrArg Comm.sockfiles hreads.same :)
  have hsend : c'.pqSendBuffer = c.pqSendBuffer := (congrArg Comm.pqSendBuffer hreads.same :)
  have hrecv : c'.pqRecvBuffer = c.pqRecvBuffer := (congrArg Comm.pqRecvBuffer hreads.same :)
  intro hcma
  rw [hsock] at hcma
  obtain ⟨-, -, hlen⟩ := hreads.still (hstill hcma)
  rw [hsend, hrecv]
  rcases h hcma with hblock | hle
  · exact Or.inl hblock
  · exact Or.inr (by omega)

/-- Reading leaves the connection wired. -/
theorem Wired.reads {c' : Comm} (h : Wired t c) (hfeeds : Feeds b t n u c) (hreads : Reads c c') :
    Wired t c' := by
  have hfile : c'.socketFile = c.socketFile := (congrArg Comm.socketFile hreads.same :)
  have hsock : c'.sockfiles = c.sockfiles := (congrArg Comm.sockfiles hreads.same :)
  have hstill : c.sockfiles = false → c.queryfp = none := by
    intro hcma
    cases t with
    | cma => exact hfeeds.queryfp_cma
    | file => exact absurd (hcma.symm.trans (h.sockfiles rfl)) (by simp)
  refine ⟨h.apart.reads hreads hstill, by rw [hfile]; exact h.file, ?_, hreads.shut h.shut⟩
  rw [hsock]
  exact h.sockfiles

/-- Starting a message touches the buffers only. -/
theorem startmsgread_frame (b : Build) (c : Comm) :
    (c.startmsgread b).socketFile = c.socketFile ∧ (c.startmsgread b).sockfiles = c.sockfiles ∧
      (c.startmsgread b).queryfp = c.queryfp ∧ (c.startmsgread b).querylen = c.querylen ∧
      (c.startmsgread b).taken = c.taken := by
  unfold Comm.startmsgread Comm.pointBuffers
  split_ifs <;> exact ⟨rfl, rfl, rfl, rfl, rfl⟩

/-- Starting a message in the middle of a packet keeps the reply where it is, or leaves it to the file. -/
theorem Wired.startmsgread (h : Wired t c) (hmid : 0 < c.pqBufferRemainingData ∨ c.sockfiles = true) :
    Wired t (c.startmsgread b) := by
  obtain ⟨hfile, hsock, hfp, hlen, -⟩ := startmsgread_frame b c
  refine ⟨?_, by rw [hfile]; exact h.file, by rw [hsock]; exact h.sockfiles, by rw [hfp, hlen]; exact h.shut⟩
  rcases Nat.eq_zero_or_pos c.pqBufferRemainingData with hzero | hbuf
  · have hfiles : c.sockfiles = true := hmid.resolve_left (by omega)
    intro hcma
    exact absurd ((hsock.trans hfiles).symm.trans hcma) (by simp)
  · rw [startmsgread_of_buffered hbuf]
    exact h.apart

/-- In the middle of a message the connection is wired. -/
theorem Midway.wired (h : Midway b t n u c) : Wired t c := ⟨h.apart, h.file, h.sockfiles, h.shut⟩

/-- In the middle of a packet the next message is read from the buffer or from the file. -/
theorem Settled.midway (h : Settled b t n u c) (hfile : t = .file → c.sockfiles = true) (hu : u ≠ []) :
    0 < c.pqBufferRemainingData ∨ c.sockfiles = true := by
  have hpos : 0 < u.length := List.length_pos_iff.mpr hu
  have hle := h.length_le
  cases t with
  | file => exact Or.inr (hfile rfl)
  | cma =>
      refine Or.inl (h.remaining_pos_iff.mpr ?_)
      rintro (hend | ⟨hcma, -⟩)
      · omega
      · cases hcma

/-- Before the end of the packet the next message is offered. -/
theorem Midway.offers (h : Midway b t n u c) (hu : u ≠ []) : Offers b t n u c := by
  have hmid := h.toSettled.midway h.sockfiles hu
  exact ⟨h.notReading, h.toFeeds.startmsgread hmid, (h.wired.startmsgread hmid).apart, h.file, h.sockfiles,
    h.shut, h.once⟩

/-- Sending on the connection does not change what is read from it. -/
theorem Midway.send (h : Midway b t n u c) (op : SendOp) : Midway b t n u (c.send op) := by
  have hsame := sameInput_send h.apart op
  have hreading : (c.send op).pqCommReadingMsg = c.pqCommReadingMsg :=
    (congrArg Comm.pqCommReadingMsg hsame.same :)
  have htaken : (c.send op).taken = c.taken := (congrArg Comm.taken hsame.same :)
  obtain ⟨hapart, hfile, hsock, hshut⟩ := h.wired.send op
  exact ⟨h.toSettled.of_sameInput hsame, hreading.trans h.notReading, hapart, hfile, hsock, hshut,
    by rw [htaken]; exact h.once⟩

/-- Sends leave the connection in the middle of its message. -/
theorem Midway.sends (h : Midway b t n u c) (ops : List SendOp) :
    Midway b t n u (ops.foldl Comm.send c) := by
  induction ops generalizing c with
  | nil => exact h
  | cons op ops ih => exact ih (h.send op)

/-- The announced size does not matter in the middle of a packet. -/
theorem Midway.announce (h : Midway b t n u c) (size : ℤ) :
    Midway b t n u { c with cmaRsize := size } :=
  ⟨⟨⟨h.le, h.unread, h.length_le, h.stream, h.edge, h.inside, h.place⟩, h.tight⟩, h.notReading, h.apart,
    h.file, h.sockfiles, h.shut, h.once⟩

/-- **Reading one message**: its type byte and its body, and the rest of the packet is next. -/
theorem Offers.readMessage {m : Msg} {rest : List UInt8} (h : Offers b t n (m.encode ++ rest) c) :
    (pqGetbyte b (c.startmsgread b)).1 = some m.kind.code ∧
      (pqGetmessage b m.kind.maxlen (pqGetbyte b (c.startmsgread b)).2).1 = some m.body ∧
      Midway b t n rest (pqGetmessage b m.kind.maxlen (pqGetbyte b (c.startmsgread b)).2).2 := by
  obtain ⟨hbyte, hsettled, hreads⟩ := pqGetbyte_spec h.feeds
  obtain ⟨hbody, hrest, hreads'⟩ := pqGetmessage_spec m.kind.maxlen hsettled
  have htail : (m.encode ++ rest).tail = encodeBody m.body ++ rest := rfl
  rw [htail, readBody_encodeBody rest m.fits m.length_lt] at hbody hrest hreads'
  rw [BodyRead.body?, Option.isNone_some, Bool.and_false] at hreads'
  generalize pqGetmessage b m.kind.maxlen (pqGetbyte b (c.startmsgread b)).2 = r at hbody hrest hreads'
  -- the whole message is read, whatever `pq_startmsgread` said
  have hdone : Reads { c.startmsgread b with pqCommReadingMsg := false } r.2 :=
    (hreads.reading false).trans hreads'
  obtain ⟨hstartFile, hstartSock, hstartFp, hstartLen, hstartTaken⟩ := startmsgread_frame b c
  have hreading : r.2.pqCommReadingMsg = false := (congrArg Comm.pqCommReadingMsg hdone.same :)
  have hwired : Wired t { c.startmsgread b with pqCommReadingMsg := false } := by
    refine ⟨h.apart, ?_, ?_, ?_⟩
    · rw [hstartFile]
      exact h.file
    · rw [hstartSock]
      exact h.sockfiles
    · rw [hstartFp, hstartLen]
      exact h.shut
  obtain ⟨hapart, hfile, hsock, hshut⟩ := hwired.reads (h.feeds.reading false) hdone
  refine ⟨hbyte, hbody, hrest, hreading, hapart, hfile, hsock, hshut, ?_⟩
  -- what was offered is taken or still unread
  have hstream := congrArg List.length hdone.stream
  have hoffered : Comm.unread { c.startmsgread b with pqCommReadingMsg := false } = m.encode ++ rest :=
    h.feeds.unread
  have honce := h.once
  rw [hoffered, hrest.unread, List.length_append, List.length_append] at hstream
  change r.2.taken.length + rest.length =
    (c.startmsgread b).taken.length + (m.encode ++ rest).length at hstream
  rw [hstartTaken] at hstream
  omega

end PgliteBuild
