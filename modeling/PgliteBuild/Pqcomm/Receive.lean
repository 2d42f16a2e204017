import PgliteBuild.Pqcomm.Basic

/-! # What the readers of `pqcomm.c` read

The receive buffer and the unread rest of a socket file together hold one stream of bytes,
`Comm.unread`. `Feeds` says that a connection is about to deliver a given stream, whichever transport
brought it: the specs of `pq_getbyte`, `pq_getbytes` and `pq_getmessage` are about that stream only.
`Settled` adds where the buffer ends: after a read it is empty exactly at the cuts of the transport,
which are the end of the packet and, for a socket file, every multiple of the receive buffer size. -/

namespace PgliteBuild

open BlockMemory Effect Framing

/-! ## The unread stream -/

/-- The bytes that readers will get. -/
def Comm.unread (c : Comm) : List UInt8 :=
  c.mem.read (c.pqRecvBuffer.add c.pqRecvPointer) c.pqBufferRemainingData ++ c.queryfp.getD []

/-- The bytes that are not in the receive buffer yet. -/
def Comm.ahead (c : Comm) : ℕ := (c.queryfp.getD []).length

/-- What is unread is the data in the buffer and what is ahead in the file. -/
theorem Comm.length_unread (c : Comm) : c.unread.length = c.pqBufferRemainingData + c.ahead := by
  simp [Comm.unread, Comm.ahead]

/-- With an empty buffer, the unread bytes are those of the file. -/
theorem Comm.unread_of_drained {c : Comm} (h : c.pqBufferRemainingData = 0) :
    c.unread = c.queryfp.getD [] := by
  rw [Comm.unread, h, Memory.read_zero, List.nil_append]

/-- The two ways of a wire request into the backend. -/
inductive Transport where
  /-- The contiguous memory area. -/
  | cma
  /-- The socket file `PGS_IN`. -/
  | file
  deriving DecidableEq, Repr

/-- The positions of a packet of `n` bytes at which the receive buffer can run empty. -/
def Transport.Cut (b : Build) (t : Transport) (n x : ℕ) : Prop :=
  x = n ∨ t = .file ∧ b.recvBufferSize ∣ x

instance (b : Build) (t : Transport) (n x : ℕ) : Decidable (t.Cut b n x) :=
  inferInstanceAs (Decidable (_ ∨ _))

variable {b : Build} {t : Transport} {n : ℕ} {u : List UInt8} {c : Comm}

/-- The connection delivers the stream `u`, the rest of a packet of `n` bytes. -/
structure Feeds (b : Build) (t : Transport) (n : ℕ) (u : List UInt8) (c : Comm) : Prop where
  le : c.pqRecvPointer ≤ c.pqRecvLength
  unread : c.unread = u
  length_le : u.length ≤ n
  stream : ∀ st, c.queryfp = some st → t = .file ∧ st ≠ [] ∧ c.querylen = st.length
  /-- The buffer ends at a cut. -/
  edge : t.Cut b n (n - c.ahead)
  /-- The end of the buffer is the next cut. -/
  inside : ∀ x, t.Cut b n x → n - u.length < x → n - c.ahead ≤ x
  /-- A packet in the memory area is read in place. -/
  place : t = .cma → u ≠ [] → c.pqRecvBuffer = ⟨.cma, 1⟩ ∧ c.pqRecvPointer + u.length = n

/-- As `Feeds`, with the buffer empty at a cut. -/
structure Settled (b : Build) (t : Transport) (n : ℕ) (u : List UInt8) (c : Comm) : Prop
    extends Feeds b t n u c where
  tight : t.Cut b n (n - u.length) → c.pqBufferRemainingData = 0

/-- What is left of the stream is the data in the buffer and what is ahead in the file. -/
theorem Feeds.length_eq (h : Feeds b t n u c) : u.length = c.pqBufferRemainingData + c.ahead := by
  rw [← h.unread, c.length_unread]

/-- Data is buffered exactly between the cuts. -/
theorem Settled.remaining_pos_iff (h : Settled b t n u c) :
    0 < c.pqBufferRemainingData ↔ ¬t.Cut b n (n - u.length) := by
  constructor
  · intro hpos hcut
    exact hpos.ne' (h.tight hcut)
  · intro hcut
    by_contra hzero
    have hahead : u.length = c.ahead := by have := h.length_eq; omega
    exact hcut (hahead ▸ h.edge)

/-- Nothing is buffered at the end of the stream. -/
theorem Feeds.remaining_nil (h : Feeds b t n [] c) : c.pqBufferRemainingData = 0 := by
  have hlen := h.length_eq
  rw [List.length_nil] at hlen
  omega

/-- Nothing is left of the file at the end of the stream. -/
theorem Feeds.queryfp_nil (h : Feeds b t n [] c) : c.queryfp = none := by
  by_contra hne
  obtain ⟨st, hst⟩ := Option.ne_none_iff_exists'.mp hne
  have hlen := h.length_eq
  obtain ⟨-, hst', -⟩ := h.stream st hst
  rw [Comm.ahead, hst, List.length_nil, Option.getD_some] at hlen
  exact hst' (List.length_eq_zero_iff.mp (by omega))

/-- At its end the stream is settled. -/
theorem Feeds.settled_nil (h : Feeds b t n [] c) : Settled b t n [] c :=
  { h with tight := fun _ => h.remaining_nil }

/-- A packet in the memory area is not read from a file. -/
theorem Feeds.queryfp_cma (h : Feeds b .cma n u c) : c.queryfp = none := by
  by_contra hne
  obtain ⟨st, hst⟩ := Option.ne_none_iff_exists'.mp hne
  cases (h.stream st hst).1

/-- The only cut of a packet in the memory area is its end. -/
theorem Feeds.settled_cma (h : Feeds b .cma n u c) : Settled b .cma n u c := by
  refine { h with tight := fun hcut => ?_ }
  have hend : n - u.length = n := hcut.resolve_right (by simp)
  have hlen := h.length_eq
  have hle := h.length_le
  omega

/-! ## What reading leaves alone -/

/-- The connection with its receive state blanked out. -/
def Comm.sendSide (c : Comm) : Comm :=
  { c with
    mem := fun _ _ => 0
    pqRecvPointer := 0
    pqRecvLength := 0
    querylen := 0
    queryfp := none
    taken := [] }

/-- `c'` comes from `c` by reading: the bytes read are those that are no longer unread. -/
structure Reads (c c' : Comm) : Prop where
  same : c'.sendSide = c.sendSide
  stream : c'.taken ++ c'.unread = c.taken ++ c.unread
  still : c.queryfp = none →
    c'.mem = c.mem ∧ c'.queryfp = none ∧ c'.pqRecvLength ≤ c.pqRecvLength
  /-- Once the file is read to its end, none of it is outstanding. -/
  shut : (c.queryfp = none → c.querylen = 0) → c'.queryfp = none → c'.querylen = 0

/-- Reading nothing changes nothing. -/
theorem Reads.refl (c : Comm) : Reads c c := ⟨rfl, rfl, fun h => ⟨rfl, h, le_refl _⟩, fun h => h⟩

/-- Reading twice is reading. -/
theorem Reads.trans {c c' c'' : Comm} (h : Reads c c') (h' : Reads c' c'') : Reads c c'' where
  same := h'.same.trans h.same
  stream := h'.stream.trans h.stream
  still hnone := by
    obtain ⟨hmem, hnone', hlen⟩ := h.still hnone
    obtain ⟨hmem', hnone'', hlen'⟩ := h'.still hnone'
    exact ⟨hmem'.trans hmem, hnone'', hlen'.trans hlen⟩
  shut hshut := h'.shut (h.shut hshut)

/-- Whether a message is being read does not matter to reading. -/
theorem Reads.reading {c c' : Comm} (h : Reads c c') (flag : Bool) :
    Reads { c with pqCommReadingMsg := flag } { c' with pqCommReadingMsg := flag } where
  same := congrArg (fun c : Comm => { c with pqCommReadingMsg := flag }) h.same
  stream := h.stream
  still := h.still
  shut := h.shut

/-- The stream does not depend on whether a message is being read. -/
theorem Feeds.reading (h : Feeds b t n u c) (flag : Bool) :
    Feeds b t n u { c with pqCommReadingMsg := flag } :=
  ⟨h.le, h.unread, h.length_le, h.stream, h.edge, h.inside, h.place⟩

/-- That the stream is settled does not depend on whether a message is being read. -/
theorem Settled.reading (h : Settled b t n u c) (flag : Bool) :
    Settled b t n u { c with pqCommReadingMsg := flag } :=
  ⟨h.toFeeds.reading flag, h.tight⟩

/-! ## What sending leaves alone -/

/-- The connection with its send state and its memory blanked out. -/
def Comm.recvSide (c : Comm) : Comm :=
  { c with
    mem := fun _ _ => 0
    pqSendBuffer := ⟨.sendAlloc, 0⟩
    pqSendBufferSize := 0
    pqSendPointer := 0
    pqSendBufferSave := none
    sockfiles := false
    socketFile := none
    socketData := 0
    pgsOlock := none
    pgsOut := none
    copied := [] }

/-- `c'` has the receive state of `c`, and the bytes in its receive buffer. -/
structure SameInput (c c' : Comm) : Prop where
  same : c'.recvSide = c.recvSide
  buffered : c'.mem.read c.pqRecvBuffer c.pqRecvLength = c.mem.read c.pqRecvBuffer c.pqRecvLength

/-- Every connection has its own input. -/
theorem SameInput.refl (c : Comm) : SameInput c c := ⟨rfl, rfl⟩

/-- The input is the same over two steps if it is over each. -/
theorem SameInput.trans {c c' c'' : Comm} (h : SameInput c c') (h' : SameInput c' c'') :
    SameInput c c'' where
  same := h'.same.trans h.same
  buffered := by
    have hbuf : c'.pqRecvBuffer = c.pqRecvBuffer := (congrArg Comm.pqRecvBuffer h.same :)
    have hlen : c'.pqRecvLength = c.pqRecvLength := (congrArg Comm.pqRecvLength h.same :)
    have hread := h'.buffered
    rw [hbuf, hlen] at hread
    rw [hread, h.buffered]

/-- The same input is the same stream. -/
theorem SameInput.unread_eq {c c' : Comm} (h : SameInput c c') (hle : c.pqRecvPointer ≤ c.pqRecvLength) :
    c'.unread = c.unread := by
  have hbuf : c'.pqRecvBuffer = c.pqRecvBuffer := (congrArg Comm.pqRecvBuffer h.same :)
  have hptr : c'.pqRecvPointer = c.pqRecvPointer := (congrArg Comm.pqRecvPointer h.same :)
  have hlen : c'.pqRecvLength = c.pqRecvLength := (congrArg Comm.pqRecvLength h.same :)
  have hfp : c'.queryfp = c.queryfp := (congrArg Comm.queryfp h.same :)
  rw [Comm.unread, Comm.unread, Comm.pqBufferRemainingData, Comm.pqBufferRemainingData, hbuf, hptr,
    hlen, hfp, ← Memory.drop_read _ _ hle, ← Memory.drop_read _ _ hle, h.buffered]

/-- A connection with the same input is fed by the same stream. -/
theorem Feeds.of_sameInput {c' : Comm} (h : Feeds b t n u c) (hsame : SameInput c c') :
    Feeds b t n u c' := by
  have hptr : c'.pqRecvPointer = c.pqRecvPointer := (congrArg Comm.pqRecvPointer hsame.same :)
  have hlen : c'.pqRecvLength = c.pqRecvLength := (congrArg Comm.pqRecvLength hsame.same :)
  have hfp : c'.queryfp = c.queryfp := (congrArg Comm.queryfp hsame.same :)
  have hql : c'.querylen = c.querylen := (congrArg Comm.querylen hsame.same :)
  have hbuf : c'.pqRecvBuffer = c.pqRecvBuffer := (congrArg Comm.pqRecvBuffer hsame.same :)
  have hahead : c'.ahead = c.ahead := by rw [Comm.ahead, Comm.ahead, hfp]
  refine ⟨by rw [hptr, hlen]; exact h.le, (hsame.unread_eq h.le).trans h.unread, h.length_le, ?_, ?_, ?_,
    ?_⟩
  · rw [hfp, hql]
    exact h.stream
  · rw [hahead]
    exact h.edge
  · rw [hahead]
    exact h.inside
  · rw [hbuf, hptr]
    exact h.place

/-- A connection with the same input is settled in the same stream. -/
theorem Settled.of_sameInput {c' : Comm} (h : Settled b t n u c) (hsame : SameInput c c') :
    Settled b t n u c' := by
  have hptr : c'.pqRecvPointer = c.pqRecvPointer := (congrArg Comm.pqRecvPointer hsame.same :)
  have hlen : c'.pqRecvLength = c.pqRecvLength := (congrArg Comm.pqRecvLength hsame.same :)
  refine { h.toFeeds.of_sameInput hsame with tight := fun hcut => ?_ }
  rw [Comm.pqBufferRemainingData, hptr, hlen]
  exact h.tight hcut

/-! ## Every reader leaves the send side alone -/

/-- Refilling the empty buffer leaves the send side alone. -/
theorem recvIfEmpty_sendSide (b : Build) (c : Comm) : (recvIfEmpty b c).2.sendSide = c.sendSide := by
  have hjustify : c.leftJustify.sendSide = c.sendSide := by
    rw [Comm.leftJustify]
    split_ifs <;> rfl
  rw [recvIfEmpty]
  split_ifs
  · rfl
  rw [pqRecvbuf]
  cases c.leftJustify.queryfp with
  | none => exact hjustify
  | some stream =>
      dsimp only
      split_ifs <;> exact hjustify

/-- `pq_getbyte` leaves the send side alone. -/
theorem pqGetbyte_sendSide (b : Build) (c : Comm) : (pqGetbyte b c).2.sendSide = c.sendSide := by
  have hload := recvIfEmpty_sendSide b c
  unfold pqGetbyte
  generalize recvIfEmpty b c = r at hload
  obtain ⟨eof, c'⟩ := r
  cases eof <;> exact hload

/-- The loop of `pq_getbytes` leaves the send side alone. -/
theorem pqGetbytesLoop_sendSide (b : Build) (fuel len : ℕ) (s : List UInt8) (c : Comm) :
    (pqGetbytesLoop b fuel len s c).2.sendSide = c.sendSide := by
  induction fuel generalizing len s c with
  | zero => rfl
  | succ fuel ih =>
      have hload := recvIfEmpty_sendSide b c
      unfold pqGetbytesLoop
      split_ifs
      · rfl
      generalize recvIfEmpty b c = r at hload
      obtain ⟨eof, c'⟩ := r
      cases eof with
      | true => exact hload
      | false => exact (ih _ _ _).trans hload

/-- A message that is read to its end is no longer being read. -/
theorem pqGetmessage_sendSide (b : Build) (maxlen : ℕ) (c : Comm) :
    ∃ flag, (pqGetmessage b maxlen c).2.sendSide = { c with pqCommReadingMsg := flag }.sendSide := by
  have hword := pqGetbytesLoop_sendSide b 4 4 [] c
  rw [pqGetmessage, pqGetbytes]
  generalize pqGetbytesLoop b 4 4 [] c = r at hword
  obtain ⟨_ | lenword, c₁⟩ := r
  · exact ⟨c.pqCommReadingMsg, hword⟩
  dsimp only
  split_ifs
  · exact ⟨c.pqCommReadingMsg, hword⟩
  have hbody := pqGetbytesLoop_sendSide b (wordValue lenword - 4) (wordValue lenword - 4) [] c₁
  rw [pqGetbytes]
  generalize pqGetbytesLoop b (wordValue lenword - 4) (wordValue lenword - 4) [] c₁ = r at hbody
  obtain ⟨_ | body, c₂⟩ := r
  · exact ⟨c.pqCommReadingMsg, hbody.trans hword⟩
  · refine ⟨false, ?_⟩
    have hall := hbody.trans hword
    exact congrArg (fun c : Comm => { c with pqCommReadingMsg := false }) hall

/-! ## Loading the buffer -/

/-- An empty buffer is left-justified by resetting its bounds. -/
theorem leftJustify_of_drained (hle : c.pqRecvPointer ≤ c.pqRecvLength)
    (h : c.pqBufferRemainingData = 0) :
    c.leftJustify = { c with pqRecvPointer := 0, pqRecvLength := 0 } := by
  have heq : c.pqRecvLength - c.pqRecvPointer = 0 := h
  unfold Comm.leftJustify
  split_ifs with hpos hlt
  · omega
  · rfl
  · have hlen : c.pqRecvLength = 0 := by omega
    have hptr : c.pqRecvPointer = 0 := by omega
    cases c
    simp_all

/-- With data in the buffer there is nothing to load. -/
theorem recvIfEmpty_of_pos (h : 0 < c.pqBufferRemainingData) : recvIfEmpty b c = (false, c) := by
  have hlt : c.pqRecvPointer < c.pqRecvLength := Nat.lt_of_sub_pos h
  rw [recvIfEmpty, if_pos hlt]

/-- At the end of the stream loading fails. -/
theorem recvIfEmpty_nil (h : Feeds b t n [] c) :
    recvIfEmpty b c = (true, { c with pqRecvPointer := 0, pqRecvLength := 0 }) := by
  have hzero := h.remaining_nil
  have hge : ¬c.pqRecvPointer < c.pqRecvLength := Nat.not_lt.mpr (Nat.sub_eq_zero_iff_le.mp hzero)
  rw [recvIfEmpty, if_neg hge, pqRecvbuf, leftJustify_of_drained h.le hzero]
  simp only [h.queryfp_nil]

/-- At the end of the stream the buffer may be reset. -/
theorem Feeds.reset_nil (h : Feeds b t n [] c) :
    Feeds b t n [] { c with pqRecvPointer := 0, pqRecvLength := 0 } where
  le := le_refl 0
  unread := by simp [Comm.unread, Comm.pqBufferRemainingData, h.queryfp_nil]
  length_le := h.length_le
  stream := h.stream
  edge := h.edge
  inside := h.inside
  place _ hne := absurd rfl hne

/-- The connection after a refill of an empty buffer. -/
def Comm.refilled (b : Build) (c : Comm) (u : List UInt8) : Comm :=
  Comm.refill { c with pqRecvPointer := 0, pqRecvLength := 0 } u (min b.recvBufferSize u.length)

/-- With an empty buffer the stream is what is left of the file. -/
theorem Feeds.queryfp_of_drained (h : Feeds b t n u c) (hu : u ≠ [])
    (hzero : c.pqBufferRemainingData = 0) : c.queryfp = some u := by
  have hunread := h.unread
  rw [Comm.unread_of_drained hzero] at hunread
  cases hfp : c.queryfp with
  | none => rw [hfp] at hunread; exact absurd hunread.symm hu
  | some st => rw [hfp] at hunread; exact congrArg some hunread

/-- **A refill that can succeed does**: an empty buffer before the end of the stream is loaded. -/
theorem recvIfEmpty_refill (h : Feeds b t n u c) (hu : u ≠ [])
    (hzero : c.pqBufferRemainingData = 0) : recvIfEmpty b c = (false, c.refilled b u) := by
  have hfp := h.queryfp_of_drained hu hzero
  have hge : ¬c.pqRecvPointer < c.pqRecvLength := Nat.not_lt.mpr (Nat.sub_eq_zero_iff_le.mp hzero)
  obtain ⟨-, -, hlen⟩ := h.stream u hfp
  have hpos : 0 < u.length := List.length_pos_iff.mpr hu
  have hS := b.recvBufferSize_pos
  have hgot : min b.recvBufferSize u.length ≠ 0 := by omega
  rw [recvIfEmpty, if_neg hge, pqRecvbuf, leftJustify_of_drained h.le hzero]
  simp only [hfp, hlen, Nat.sub_zero]
  rw [if_neg (by omega)]
  simp [Comm.refilled, hgot, hfp, hlen]

/-- A refill delivers the same stream. -/
theorem Feeds.refilled (h : Feeds b t n u c) (hu : u ≠ []) (hzero : c.pqBufferRemainingData = 0) :
    Feeds b t n u (c.refilled b u) ∧ 0 < (c.refilled b u).pqBufferRemainingData := by
  have hfp := h.queryfp_of_drained hu hzero
  obtain ⟨ht, -, hlen⟩ := h.stream u hfp
  have hpos : 0 < u.length := List.length_pos_iff.mpr hu
  have hS := b.recvBufferSize_pos
  have hn := h.length_le
  -- the file is read in buffers, so the empty buffer ended at a multiple of the buffer size
  have hedge : b.recvBufferSize ∣ n - u.length := by
    rcases h.edge with hend | ⟨-, hdvd⟩
    · rw [Comm.ahead, hfp, Option.getD_some] at hend
      omega
    · rwa [Comm.ahead, hfp, Option.getD_some] at hdvd
  have hfp' : (c.refilled b u).queryfp.getD [] = u.drop (min b.recvBufferSize u.length) := by
    simp only [Comm.refilled, Comm.refill, hlen]
    split_ifs with hend
    · rw [Option.getD_none, List.drop_of_length_le (by omega)]
    · rfl
  have hahead : (c.refilled b u).ahead = u.length - min b.recvBufferSize u.length := by
    rw [Comm.ahead, hfp', List.length_drop]
  have hrem : (c.refilled b u).pqBufferRemainingData = min b.recvBufferSize u.length := by
    simp [Comm.refilled, Comm.refill, Comm.pqBufferRemainingData]
  have hread : (c.refilled b u).mem.read c.pqRecvBuffer (min b.recvBufferSize u.length) =
      u.take (min b.recvBufferSize u.length) := by
    have hwrite := Memory.read_write_self c.mem c.pqRecvBuffer (u.take (min b.recvBufferSize u.length))
    rwa [List.length_take, min_assoc, min_self] at hwrite
  refine ⟨⟨Nat.zero_le _, ?_, hn, ?_, ?_, ?_, fun hcma => ?_⟩, by omega⟩
  · have hptr : (c.refilled b u).pqRecvBuffer.add (c.refilled b u).pqRecvPointer = c.pqRecvBuffer := rfl
    rw [Comm.unread, hrem, hfp', hptr, hread, List.take_append_drop]
  · intro st hst
    rw [hst, Option.getD_some] at hfp'
    subst hfp'
    simp only [Comm.refilled, Comm.refill, hlen] at hst ⊢
    split_ifs at hst with hend
    refine ⟨ht, ?_, ?_⟩
    · rw [ne_eq, List.drop_eq_nil_iff]
      omega
    · rw [List.length_drop]
      omega
  · rw [hahead]
    by_cases hlast : u.length ≤ b.recvBufferSize
    · exact Or.inl (by omega)
    · refine Or.inr ⟨ht, ?_⟩
      have hnext : n - (u.length - min b.recvBufferSize u.length) =
          n - u.length + b.recvBufferSize := by omega
      rw [hnext]
      exact Nat.dvd_add hedge (Nat.dvd_refl _)
  · intro x hx hlt
    rw [hahead]
    rcases hx with rfl | ⟨-, hdvd⟩
    · omega
    · have hstep := Nat.le_of_dvd (by omega) (Nat.dvd_sub hdvd hedge)
      omega
  · cases ht.symm.trans hcma

/-- A refill of the empty buffer reads on in the same stream. -/
theorem reads_refilled (h : Feeds b t n u c) (hu : u ≠ []) (hzero : c.pqBufferRemainingData = 0) :
    Reads c (c.refilled b u) where
  same := rfl
  stream := by
    have htaken : (c.refilled b u).taken = c.taken := rfl
    rw [htaken, (h.refilled hu hzero).1.unread, h.unread]
  still hnone := by
    rw [h.queryfp_of_drained hu hzero] at hnone
    cases hnone
  shut _ hnone := by
    obtain ⟨-, -, hlen⟩ := h.stream u (h.queryfp_of_drained hu hzero)
    simp only [Comm.refilled, Comm.refill, hlen] at hnone ⊢
    split_ifs at hnone with hend
    omega

/-- **Loading before a read**: it fails at the end of the stream only, and gives the stream on. -/
theorem recvIfEmpty_spec (h : Feeds b t n u c) :
    (recvIfEmpty b c).1 = u.isEmpty ∧ Feeds b t n u (recvIfEmpty b c).2 ∧
      (u ≠ [] → 0 < (recvIfEmpty b c).2.pqBufferRemainingData) ∧ Reads c (recvIfEmpty b c).2 := by
  by_cases hu : u = []
  · subst hu
    rw [recvIfEmpty_nil h]
    refine ⟨rfl, h.reset_nil, fun hne => absurd rfl hne, rfl, ?_,
      fun hnone => ⟨rfl, hnone, Nat.zero_le _⟩, fun hshut => hshut⟩
    rw [h.reset_nil.unread, h.unread]
  · have hne : u.isEmpty = false := by simpa using hu
    by_cases hzero : c.pqBufferRemainingData = 0
    · rw [recvIfEmpty_refill h hu hzero]
      exact ⟨hne.symm, (h.refilled hu hzero).1, fun _ => (h.refilled hu hzero).2,
        reads_refilled h hu hzero⟩
    · have hpos : 0 < c.pqBufferRemainingData := Nat.pos_of_ne_zero hzero
      rw [recvIfEmpty_of_pos hpos]
      exact ⟨hne.symm, h, fun _ => hpos, Reads.refl c⟩

/-! ## Reading -/

/-- Taking from the buffer delivers the next bytes of the stream. -/
theorem take_spec (h : Feeds b t n u c) {k : ℕ} (hk : 0 < k) (hle : k ≤ c.pqBufferRemainingData) :
    (c.take k).1 = u.take k ∧ Settled b t n (u.drop k) (c.take k).2 ∧ Reads c (c.take k).2 := by
  have hlen := h.length_eq
  have hn := h.length_le
  have hrem : (c.take k).2.pqBufferRemainingData = c.pqBufferRemainingData - k := by
    simp [Comm.take, Comm.pqBufferRemainingData, Nat.sub_add_eq]
  have hbytes : (c.take k).1 = u.take k := by
    rw [← h.unread, Comm.unread, List.take_append_of_le_length (by simpa using hle),
      Memory.take_read _ _ hle]
    rfl
  have hunread : (c.take k).2.unread = u.drop k := by
    rw [← h.unread, Comm.unread, Comm.unread, List.drop_append_of_le_length (by simpa using hle),
      Memory.drop_read _ _ hle, hrem, Ptr.add_add]
    rfl
  have hahead : (c.take k).2.ahead = c.ahead := rfl
  have hcuts : n - (u.drop k).length = n - u.length + k := by
    rw [List.length_drop]
    omega
  have hfeeds : Feeds b t n (u.drop k) (c.take k).2 := by
    refine ⟨?_, hunread, ?_, h.stream, h.edge, ?_, ?_⟩
    · have hptr : c.pqRecvPointer + k ≤ c.pqRecvLength := by
        have hsub : k ≤ c.pqRecvLength - c.pqRecvPointer := hle
        omega
      exact hptr
    · rw [List.length_drop]
      omega
    · intro x hx hlt
      exact h.inside x hx (by omega)
    · intro hcma hne
      have hu : u ≠ [] := by
        rintro rfl
        simp at hne
      have hdrop : 0 < (u.drop k).length := List.length_pos_iff.mpr hne
      obtain ⟨hbuf, hpos⟩ := h.place hcma hu
      refine ⟨hbuf, ?_⟩
      show c.pqRecvPointer + k + (u.drop k).length = n
      omega
  refine ⟨hbytes, { hfeeds with tight := fun hcut => ?_ }, rfl, ?_,
    fun hnone => ⟨rfl, hnone, le_refl _⟩, fun hshut => hshut⟩
  · -- the next cut after the old position is where the buffer ends
    have hnext := h.inside _ hcut (by omega)
    omega
  · have htaken : (c.take k).2.taken = c.taken ++ (c.take k).1 := rfl
    rw [htaken, hbytes, hunread, h.unread, List.append_assoc, List.take_append_drop]

/-- **`pq_getbyte`** returns the head of the stream. -/
theorem pqGetbyte_spec (h : Feeds b t n u c) :
    (pqGetbyte b c).1 = u.head? ∧ Settled b t n u.tail (pqGetbyte b c).2 ∧
      Reads c (pqGetbyte b c).2 := by
  obtain ⟨hempty, hfeeds, hpos, hreads⟩ := recvIfEmpty_spec h
  unfold pqGetbyte
  generalize recvIfEmpty b c = r at hempty hfeeds hpos hreads
  obtain ⟨eof, c'⟩ := r
  simp only at hempty hfeeds hpos hreads
  cases u with
  | nil =>
      simp only [List.isEmpty_nil] at hempty
      subst hempty
      exact ⟨rfl, hfeeds.settled_nil, hreads⟩
  | cons x xs =>
      simp only [List.isEmpty_cons] at hempty
      subst hempty
      obtain ⟨hbyte, hsettled, hreads'⟩ := take_spec hfeeds Nat.one_pos (hpos (by simp))
      refine ⟨?_, hsettled, hreads.trans hreads'⟩
      show (c'.take 1).1.head? = _
      rw [hbyte]
      rfl

/-- **`pq_peekbyte`** returns the head of the stream and leaves it there. -/
theorem pqPeekbyte_spec (h : Feeds b t n u c) :
    (pqPeekbyte b c).1 = u.head? ∧ Feeds b t n u (pqPeekbyte b c).2 ∧
      Reads c (pqPeekbyte b c).2 := by
  obtain ⟨hempty, hfeeds, hpos, hreads⟩ := recvIfEmpty_spec h
  unfold pqPeekbyte
  generalize recvIfEmpty b c = r at hempty hfeeds hpos hreads
  obtain ⟨eof, c'⟩ := r
  simp only at hempty hfeeds hpos hreads
  cases u with
  | nil =>
      simp only [List.isEmpty_nil] at hempty
      subst hempty
      exact ⟨rfl, hfeeds, hreads⟩
  | cons x xs =>
      simp only [List.isEmpty_cons] at hempty
      subst hempty
      obtain ⟨hbyte, -, -⟩ := take_spec hfeeds Nat.one_pos (hpos (by simp))
      refine ⟨?_, hfeeds, hreads⟩
      show (c'.take 1).1.head? = _
      rw [hbyte]
      rfl

/-- The copy loop of `pq_getbytes` returns the next bytes of the stream, or runs short. -/
theorem pqGetbytesLoop_spec {fuel len : ℕ} (hfuel : len ≤ fuel) (s : List UInt8)
    (h : Feeds b t n u c) :
    (pqGetbytesLoop b fuel len s c).1 = (if len ≤ u.length then some (s ++ u.take len) else none) ∧
      Feeds b t n (u.drop len) (pqGetbytesLoop b fuel len s c).2 ∧
      (Settled b t n u c → Settled b t n (u.drop len) (pqGetbytesLoop b fuel len s c).2) ∧
      Reads c (pqGetbytesLoop b fuel len s c).2 := by
  induction fuel generalizing len s u c with
  | zero =>
      obtain rfl : len = 0 := Nat.le_zero.mp hfuel
      simp only [pqGetbytesLoop, Nat.zero_le, if_true, List.take_zero, List.append_nil,
        List.drop_zero]
      exact ⟨trivial, h, id, Reads.refl c⟩
  | succ fuel ih =>
      unfold pqGetbytesLoop
      by_cases hlen : len = 0
      · subst hlen
        simp only [Nat.zero_le, if_true, List.take_zero, List.append_nil, List.drop_zero]
        exact ⟨trivial, h, id, Reads.refl c⟩
      rw [if_neg hlen]
      obtain ⟨hempty, hfeeds, hpos, hreads⟩ := recvIfEmpty_spec h
      generalize recvIfEmpty b c = r at hempty hfeeds hpos hreads
      obtain ⟨eof, c'⟩ := r
      simp only at hempty hfeeds hpos hreads
      by_cases hu : u = []
      · subst hu
        simp only [List.isEmpty_nil] at hempty
        subst hempty
        rw [List.drop_nil, List.length_nil, if_neg (by omega)]
        exact ⟨rfl, hfeeds, fun _ => hfeeds.settled_nil, hreads⟩
      · have hne : u.isEmpty = false := by simpa using hu
        obtain rfl : eof = false := hempty.trans hne
        have hrem := hpos hu
        have hle := hfeeds.length_eq
        -- one round takes `k` bytes, at least one
        obtain ⟨k, hk⟩ : ∃ k, min (c'.pqRecvLength - c'.pqRecvPointer) len = k := ⟨_, rfl⟩
        have hrem' : c'.pqBufferRemainingData = c'.pqRecvLength - c'.pqRecvPointer := rfl
        obtain ⟨hbytes, hsettled, hreads'⟩ := take_spec hfeeds (k := k) (by omega) (by omega)
        have hsplit : k + (len - k) = len := by omega
        simp only [hk]
        have hround : len - k ≤ fuel := by omega
        obtain ⟨hval, hfed, hset, hr⟩ := ih hround (s ++ (c'.take k).1) hsettled.toFeeds
        rw [List.drop_drop, hsplit] at hfed hset
        refine ⟨?_, hfed, fun _ => hset hsettled, (hreads.trans hreads').trans hr⟩
        have hiff : len - k ≤ (u.drop k).length ↔ len ≤ u.length := by
          rw [List.length_drop]
          omega
        rw [hval, hbytes, List.append_assoc, ← List.take_add, hsplit]
        simp only [hiff]

/-- **`pq_getbytes`** returns the next `len` bytes of the stream, or reads all of it. -/
theorem pqGetbytes_spec (len : ℕ) (h : Settled b t n u c) :
    (pqGetbytes b len c).1 = (if len ≤ u.length then some (u.take len) else none) ∧
      Settled b t n (u.drop len) (pqGetbytes b len c).2 ∧ Reads c (pqGetbytes b len c).2 := by
  obtain ⟨hval, -, hset, hreads⟩ := pqGetbytesLoop_spec (le_refl len) [] h.toFeeds
  exact ⟨hval, hset h, hreads⟩

/-- **`pq_getmessage`** reads a length-prefixed body off the stream. The message is still being read
when there is none. -/
theorem pqGetmessage_spec (maxlen : ℕ) (h : Settled b t n u c) :
    (pqGetmessage b maxlen c).1 = (readBody maxlen u).body? ∧
      Settled b t n (readBody maxlen u).rest (pqGetmessage b maxlen c).2 ∧
      Reads { c with pqCommReadingMsg := c.pqCommReadingMsg && (readBody maxlen u).body?.isNone }
        (pqGetmessage b maxlen c).2 := by
  have hreading : ∀ c' : Comm, Reads c c' →
      Reads { c with pqCommReadingMsg := c.pqCommReadingMsg && true } c' := by
    intro c' hc'
    rwa [Bool.and_true]
  obtain ⟨hword, hsettled, hreads⟩ := pqGetbytes_spec 4 h
  unfold pqGetmessage readBody
  generalize pqGetbytes b 4 c = r at hword hsettled hreads
  obtain ⟨lenword, c₁⟩ := r
  simp only at hword hsettled hreads
  by_cases hshort : u.length < 4
  · rw [if_neg (by omega)] at hword
    rw [List.drop_of_length_le (by omega)] at hsettled
    subst hword
    rw [if_pos hshort]
    exact ⟨rfl, hsettled, hreading _ hreads⟩
  rw [if_pos (by omega)] at hword
  subst hword
  rw [if_neg hshort]
  simp only
  by_cases hbad : wordValue (u.take 4) < 4 ∨ maxlen < wordValue (u.take 4)
  · rw [if_pos hbad, if_pos hbad]
    exact ⟨rfl, hsettled, hreading _ hreads⟩
  rw [if_neg hbad, if_neg hbad]
  obtain ⟨hbody, hsettled₂, hreads₂⟩ := pqGetbytes_spec (wordValue (u.take 4) - 4) hsettled
  generalize pqGetbytes b (wordValue (u.take 4) - 4) c₁ = r at hbody hsettled₂ hreads₂
  obtain ⟨body, c₂⟩ := r
  simp only at hbody hsettled₂ hreads₂
  by_cases hlong : (u.drop 4).length < wordValue (u.take 4) - 4
  · rw [if_neg (by omega)] at hbody
    rw [List.drop_of_length_le (by omega)] at hsettled₂
    subst hbody
    rw [if_pos hlong]
    exact ⟨rfl, hsettled₂, hreading _ (hreads.trans hreads₂)⟩
  · rw [if_pos (by omega)] at hbody
    subst hbody
    rw [if_neg hlong]
    have hdone : Reads { c with pqCommReadingMsg := c.pqCommReadingMsg && false }
        { c₂ with pqCommReadingMsg := false } := by
      rw [Bool.and_false]
      exact (hreads.trans hreads₂).reading false
    exact ⟨rfl, hsettled₂.reading false, hdone⟩

/-! ## Starting a message -/

/-- The connection after a `pq_startmsgread` that does not fail. -/
def Comm.startmsgread (b : Build) (c : Comm) : Comm :=
  Comm.pointBuffers b { c with pqCommReadingMsg := true }

/-- `pq_startmsgread` fails only while a message is being read. -/
theorem pqStartmsgread_eq (h : c.pqCommReadingMsg = false) :
    pqStartmsgread b c = .ok () (c.startmsgread b) := by
  rw [pqStartmsgread, run_bind_ok (run_get c), if_neg (by simp [h])]
  rfl

/-- While a message is being read, `pq_startmsgread` ends the process. -/
theorem pqStartmsgread_reading (h : c.pqCommReadingMsg = true) :
    pqStartmsgread b c = .error (.fatal syncLost) c := by
  rw [pqStartmsgread, run_bind_ok (run_get c), if_pos h]
  rfl

/-- With data in the buffer, starting a message leaves the buffers alone. -/
theorem startmsgread_of_buffered (h : 0 < c.pqBufferRemainingData) :
    c.startmsgread b = { c with pqCommReadingMsg := true } := by
  have hpos : Comm.pqBufferRemainingData { c with pqCommReadingMsg := true } ≠ 0 := h.ne'
  rw [Comm.startmsgread, Comm.pointBuffers, if_neg hpos]

/-- With an empty buffer, starting a message points the buffers at the memory area. -/
theorem startmsgread_cma (h : c.pqBufferRemainingData = 0) (hsock : c.sockfiles = false) :
    c.startmsgread b = { c with
      pqCommReadingMsg := true
      pqRecvPointer := 0
      pqRecvLength := c.cmaRsize.toNat
      pqRecvBuffer := ⟨.cma, 1⟩
      pqSendPointer := 0
      pqSendBufferSave := some c.pqSendBuffer
      pqSendBuffer := ⟨.cma, 2 + c.cmaRsize.toNat⟩
      pqSendBufferSize := CInt.toInt32 (b.cmaEnd - (2 + c.cmaRsize)) } := by
  have hzero : Comm.pqBufferRemainingData { c with pqCommReadingMsg := true } = 0 := h
  rw [Comm.startmsgread, Comm.pointBuffers, if_pos hzero, if_neg (by simp [hsock])]

/-- With an empty buffer, starting a message points the buffers at the memory of the socket file, once the reply
goes there. -/
theorem startmsgread_file (h : c.pqBufferRemainingData = 0) (hsock : c.sockfiles = true) :
    c.startmsgread b = { c with
      pqCommReadingMsg := true
      pqRecvBuffer := ⟨.recvStatic, 0⟩
      pqSendBuffer := c.pqSendBufferSave.getD c.pqSendBuffer
      pqSendBufferSize := b.sendBufferSize } := by
  have hzero : Comm.pqBufferRemainingData { c with pqCommReadingMsg := true } = 0 := h
  rw [Comm.startmsgread, Comm.pointBuffers, if_pos hzero, if_pos hsock]

/-- Starting a message does not change the size of the request. -/
@[simp] theorem startmsgread_cmaRsize (b : Build) (c : Comm) :
    (c.startmsgread b).cmaRsize = c.cmaRsize := by
  unfold Comm.startmsgread Comm.pointBuffers
  split_ifs <;> rfl

/-- A message that starts in the middle of a packet goes on with its stream, on either transport. -/
theorem Feeds.startmsgread (h : Feeds b t n u c) (hmid : 0 < c.pqBufferRemainingData ∨ c.sockfiles) :
    Feeds b t n u (c.startmsgread b) := by
  rcases Nat.eq_zero_or_pos c.pqBufferRemainingData with hzero | hpos
  · have hsock : c.sockfiles = true := by
      rcases hmid with hpos | hsock
      · exact absurd hzero hpos.ne'
      · exact hsock
    rw [startmsgread_file hzero hsock]
    have hfile := (Comm.unread_of_drained hzero).symm.trans h.unread
    refine ⟨h.le, ?_, h.length_le, h.stream, h.edge, h.inside, ?_⟩
    · -- the empty buffer moves, the file goes on
      refine (Comm.unread_of_drained ?_).trans hfile
      exact hzero
    · intro hcma hne
      subst hcma
      rw [h.queryfp_cma] at hfile
      exact absurd hfile.symm hne
  · rw [startmsgread_of_buffered hpos]
    exact h.reading true

/-! ## Meeting a packet -/

/-- The first message of a packet in the memory area starts at its byte 0. -/
theorem feeds_startmsgread_cma {packet : List UInt8} (hdrained : c.pqBufferRemainingData = 0)
    (hsock : c.sockfiles = false) (hfp : c.queryfp = none) (hsize : c.cmaRsize = packet.length)
    (hmem : c.mem.read ⟨.cma, 1⟩ packet.length = packet) :
    Feeds b .cma packet.length packet (c.startmsgread b) := by
  rw [startmsgread_cma hdrained hsock, hsize]
  refine ⟨Nat.zero_le _, ?_, le_refl _, ?_, ?_, ?_, fun _ _ => ⟨rfl, Nat.zero_add _⟩⟩
  · simp [Comm.unread, Comm.pqBufferRemainingData, hfp, hmem]
  · intro st hst
    exact absurd (hfp.symm.trans hst) (by simp)
  · simp [Transport.Cut, Comm.ahead, hfp]
  · rintro x (rfl | ⟨h, -⟩)
    · exact fun _ => Nat.sub_le _ _
    · cases h

/-- `pq_recvbuf_fill` presents a packet from its byte 0. -/
theorem feeds_pqRecvbufFill (packet : List UInt8) :
    Feeds b .file packet.length packet (pqRecvbufFill b packet packet.length c) := by
  have hS := b.recvBufferSize_pos
  unfold pqRecvbufFill
  split_ifs with hbig
  · have hgot : min b.recvBufferSize packet.length = b.recvBufferSize := by omega
    have hlen : (packet.take b.recvBufferSize).length = b.recvBufferSize := by
      rw [List.length_take, hgot]
    have hread := Memory.read_write_self c.mem c.pqRecvBuffer (packet.take b.recvBufferSize)
    rw [hlen] at hread
    refine ⟨Nat.zero_le _, ?_, le_refl _, ?_, ?_, ?_, fun h => by cases h⟩
    · simp [Comm.unread, Comm.pqBufferRemainingData, hgot, hread]
    · intro st hst
      simp only [hgot, Option.some.injEq] at hst ⊢
      subst hst
      refine ⟨trivial, ?_, ?_⟩
      · rw [ne_eq, List.drop_eq_nil_iff]
        omega
      · rw [List.length_drop]
        omega
    · refine Or.inr ⟨rfl, 1, ?_⟩
      simp only [Comm.ahead, Option.getD_some, List.length_drop, hgot]
      rw [Nat.sub_sub_self hbig.le, Nat.mul_one]
    · intro x hx hlt
      simp only [Comm.ahead, Option.getD_some, List.length_drop, hgot]
      rcases hx with rfl | ⟨-, hdvd⟩
      · exact Nat.sub_le _ _
      · have hstep := Nat.le_of_dvd (by omega) hdvd
        omega
  · have hread := Memory.read_write_self c.mem c.pqRecvBuffer packet
    refine ⟨Nat.zero_le _, ?_, le_refl _, ?_, ?_, ?_, fun h => by cases h⟩
    · simp [Comm.unread, Comm.pqBufferRemainingData, hread]
    · intro st hst
      cases hst
    · exact Or.inl (by simp [Comm.ahead])
    · intro x hx hlt
      simp only [Comm.ahead, Option.getD_none, List.length_nil]
      rcases hx with rfl | ⟨-, hdvd⟩
      · exact Nat.sub_le _ _
      · -- a multiple of the buffer size is not below a packet that fits the buffer
        have hstep := Nat.le_of_dvd (by omega) hdvd
        omega

end PgliteBuild
