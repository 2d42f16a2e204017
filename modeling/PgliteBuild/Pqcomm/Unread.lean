import PgliteBuild.Pqcomm.Send

/-! # How much there is to read

Every reader of `pqcomm.c` leaves at most as much to read as it found, in every state of the buffers, and a reader
that delivers bytes leaves that many less. Only `pq_startmsgread` can bring more: with an empty buffer it points at
the memory area, however often that was read. -/

namespace PgliteBuild

open Effect Framing

variable {b : Build} {c : Comm}

/-- What there is to read depends on the receive side only. -/
theorem length_unread_of_recvSide {c' : Comm} (h : c'.recvSide = c.recvSide) :
    c'.unread.length = c.unread.length := by
  have hbuffer := congrArg (fun c : Comm => c.pqRecvLength - c.pqRecvPointer) h
  have hfile := congrArg (fun c : Comm => (c.queryfp.getD []).length) h
  have hremaining : c'.pqBufferRemainingData = c.pqBufferRemainingData := hbuffer
  have hahead : c'.ahead = c.ahead := hfile
  rw [Comm.length_unread, Comm.length_unread, hremaining, hahead]

/-! ## Readers -/

/-- Moving unread data to the start of the buffer keeps it. -/
theorem remaining_leftJustify (c : Comm) : c.leftJustify.pqBufferRemainingData = c.pqBufferRemainingData := by
  unfold Comm.leftJustify
  split_ifs with hpos hlt
  · rfl
  · exact (Nat.sub_eq_zero_of_le (Nat.not_lt.mp hlt)).symm
  · rfl

/-- Moving the bytes of the buffer to its front leaves the file alone. -/
theorem queryfp_leftJustify (c : Comm) : c.leftJustify.queryfp = c.queryfp := by
  unfold Comm.leftJustify
  split_ifs <;> rfl

/-- A refill moves bytes from the file to the buffer. -/
theorem length_unread_refill {stream : List UInt8} (got : ℕ) (hfile : c.queryfp = some stream)
    (hgot : got ≤ stream.length) : (c.refill stream got).unread.length ≤ c.unread.length := by
  have hbefore : c.ahead = stream.length := by rw [Comm.ahead, hfile, Option.getD_some]
  have hafter : (c.refill stream got).ahead ≤ stream.length - got := by
    rw [Comm.ahead, Comm.refill]
    dsimp only
    split_ifs
    · exact Nat.zero_le _
    · rw [Option.getD_some, List.length_drop]
  have hbuffer : (c.refill stream got).pqBufferRemainingData ≤ c.pqBufferRemainingData + got := by
    show c.pqRecvLength + got - c.pqRecvPointer ≤ c.pqRecvLength - c.pqRecvPointer + got
    omega
  rw [Comm.length_unread, Comm.length_unread]
  omega

/-- Refilling the empty buffer leaves no more unread. -/
theorem length_unread_recvIfEmpty (b : Build) (c : Comm) :
    (recvIfEmpty b c).2.unread.length ≤ c.unread.length := by
  have hjustify : c.leftJustify.unread.length = c.unread.length := by
    rw [Comm.length_unread, Comm.length_unread, remaining_leftJustify, Comm.ahead, Comm.ahead, queryfp_leftJustify]
  rw [recvIfEmpty]
  split_ifs
  · exact le_refl _
  rw [pqRecvbuf]
  cases hfile : c.leftJustify.queryfp with
  | none => exact hjustify.le
  | some stream =>
      dsimp only
      split_ifs
      · exact hjustify.le
      · exact (length_unread_refill _ hfile (min_le_right _ _)).trans hjustify.le

/-- A load that succeeds leaves data in the buffer. -/
theorem remaining_recvIfEmpty (h : (recvIfEmpty b c).1 = false) : 0 < (recvIfEmpty b c).2.pqBufferRemainingData := by
  rw [recvIfEmpty] at h ⊢
  split_ifs at h ⊢ with hlt
  · exact Nat.sub_pos_of_lt hlt
  have hempty : c.leftJustify.pqBufferRemainingData = 0 := by
    rw [remaining_leftJustify]
    exact Nat.sub_eq_zero_of_le (Nat.not_lt.mp hlt)
  have hpointer : c.leftJustify.pqRecvPointer = 0 := by
    unfold Comm.leftJustify
    split_ifs
    · rfl
    · omega
  rw [pqRecvbuf] at h ⊢
  cases hfile : c.leftJustify.queryfp with
  | none =>
      rw [hfile] at h
      cases h
  | some stream =>
      rw [hfile] at h
      dsimp only at h ⊢
      split_ifs at h ⊢
      have hgot := beq_eq_false_iff_ne.mp h
      show 0 < c.leftJustify.pqRecvLength + _ - c.leftJustify.pqRecvPointer
      omega

/-- What a reader takes from the buffer is no longer there. -/
theorem length_unread_take {k : ℕ} (hk : k ≤ c.pqBufferRemainingData) :
    (c.take k).2.unread.length + k = c.unread.length := by
  have hbuffer : (c.take k).2.pqBufferRemainingData = c.pqBufferRemainingData - k := by
    show c.pqRecvLength - (c.pqRecvPointer + k) = c.pqRecvLength - c.pqRecvPointer - k
    omega
  have hfile : (c.take k).2.ahead = c.ahead := rfl
  rw [Comm.length_unread, Comm.length_unread, hbuffer, hfile]
  omega

/-- `pq_getbyte` takes a byte, or there is nothing more. -/
theorem length_unread_pqGetbyte (b : Build) (c : Comm) :
    (pqGetbyte b c).2.unread.length + (if (pqGetbyte b c).1.isSome then 1 else 0) ≤ c.unread.length := by
  have hload := length_unread_recvIfEmpty b c
  have hdata := remaining_recvIfEmpty (b := b) (c := c)
  unfold pqGetbyte
  generalize recvIfEmpty b c = r at hload hdata
  obtain ⟨_ | _, c'⟩ := r
  · have htake := length_unread_take (c := c') (hdata rfl)
    split_ifs
    · exact htake.le.trans hload
    · exact (Nat.le_of_add_right_le htake.le).trans hload
  · simpa using hload

/-- The loop of `pq_getbytes` leaves no more unread. -/
theorem length_unread_pqGetbytesLoop (b : Build) (fuel len : ℕ) (s : List UInt8) (c : Comm) :
    (pqGetbytesLoop b fuel len s c).2.unread.length ≤ c.unread.length := by
  induction fuel generalizing len s c with
  | zero => exact le_refl _
  | succ fuel ih =>
      have hload := length_unread_recvIfEmpty b c
      unfold pqGetbytesLoop
      split_ifs
      · exact le_refl _
      generalize recvIfEmpty b c = r at hload
      obtain ⟨_ | _, c'⟩ := r
      · have htake := length_unread_take (c := c') (min_le_left c'.pqBufferRemainingData len)
        exact (ih _ _ _).trans ((Nat.le_of_add_right_le htake.le).trans hload)
      · exact hload

/-- `pq_getmessage` leaves no more unread. -/
theorem length_unread_pqGetmessage (b : Build) (maxlen : ℕ) (c : Comm) :
    (pqGetmessage b maxlen c).2.unread.length ≤ c.unread.length := by
  have hword := length_unread_pqGetbytesLoop b 4 4 [] c
  rw [pqGetmessage, pqGetbytes]
  generalize pqGetbytesLoop b 4 4 [] c = r at hword
  obtain ⟨_ | lenword, c₁⟩ := r
  · exact hword
  dsimp only
  split_ifs
  · exact hword
  have hbody := length_unread_pqGetbytesLoop b (wordValue lenword - 4) (wordValue lenword - 4) [] c₁
  rw [pqGetbytes]
  generalize pqGetbytesLoop b (wordValue lenword - 4) (wordValue lenword - 4) [] c₁ = r at hbody
  obtain ⟨_ | body, c₂⟩ := r
  · exact hbody.trans hword
  · exact hbody.trans hword

/-! ## Starting a message -/

/-- With data in the buffer, or with a socket file, a message starts with what is there. -/
theorem length_unread_startmsgread (h : 0 < c.pqBufferRemainingData ∨ c.sockfiles = true) :
    (c.startmsgread b).unread.length = c.unread.length := by
  rcases Nat.eq_zero_or_pos c.pqBufferRemainingData with hzero | hpos
  · have hsock : c.sockfiles = true := h.resolve_left (by omega)
    rw [startmsgread_file hzero hsock, Comm.length_unread, Comm.length_unread]
    rfl
  · rw [startmsgread_of_buffered hpos]
    rfl

/-- It starts with no less than that in every case. -/
theorem length_unread_le_startmsgread (b : Build) (c : Comm) :
    c.unread.length ≤ (c.startmsgread b).unread.length := by
  by_cases h : 0 < c.pqBufferRemainingData ∨ c.sockfiles = true
  · exact (length_unread_startmsgread h).ge
  have hzero : c.pqBufferRemainingData = 0 := Nat.eq_zero_of_not_pos (not_or.mp h).1
  have hahead : (c.startmsgread b).ahead = c.ahead := by
    unfold Comm.startmsgread Comm.pointBuffers
    split_ifs <;> rfl
  rw [Comm.length_unread, Comm.length_unread, hzero, hahead]
  omega

end PgliteBuild
