import PgliteBuild.Pqcomm.Receive

/-! # What `internal_putbytes` does to the reply

`internal_putbytes` copies into the send buffer while there is room. The first byte that does not fit
redirects the reply: everything in the send buffer goes to the socket file, and so does every later
byte. `Comm.putbytes` is the closed form of one call (`internalPutbytes_eq`), and the rest of this file
says what it keeps: the receive side, the request bytes, and the history of copies. -/

namespace PgliteBuild

open BlockMemory CInt Effect

/-! ## The closed form of one call -/

/-- The room left in the send buffer, with `PqSendBufferSize` converted to `size_t`. -/
def Comm.room (c : Comm) : ℕ := toSizeT c.pqSendBufferSize - c.pqSendPointer

/-- Append bytes to the socket file and count them. -/
def Comm.spill (c : Comm) (bytes : List UInt8) : Comm :=
  { c with
    socketFile := c.socketFile.map (· ++ bytes)
    socketData := toInt32 (c.socketData + bytes.length) }

/-- Move the reply so far from the send buffer to the socket file. -/
def Comm.redirect (c : Comm) : Comm :=
  { c with
    socketFile := c.socketFile.map (· ++ c.mem.read c.pqSendBuffer c.pqSendPointer)
    sockfiles := true }

/-- The connection after `internal_putbytes(s)`. -/
def Comm.putbytes (c : Comm) (s : List UInt8) : Comm :=
  if c.sockfiles then c.spill s
  else if s = [] then c
  else if s.length ≤ c.room then c.copyOut s
  else if c.room = 0 then c.redirect.spill s
  else (c.copyOut (s.take c.room)).redirect.spill (s.drop c.room)

@[simp] theorem Comm.copyOut_room (c : Comm) (bytes : List UInt8) :
    (c.copyOut bytes).room = c.room - bytes.length := by
  simp [Comm.room, Comm.copyOut, Nat.sub_add_eq]

@[simp] theorem Comm.copyOut_socketFile (c : Comm) (bytes : List UInt8) :
    (c.copyOut bytes).socketFile = c.socketFile := rfl

@[simp] theorem Comm.copyOut_sockfiles (c : Comm) (bytes : List UInt8) :
    (c.copyOut bytes).sockfiles = c.sockfiles := rfl

/-- An open socket file takes every write. -/
theorem fwriteSocketFile_eq {c : Comm} {content : List UInt8} (hfile : c.socketFile = some content)
    (bytes : List UInt8) :
    fwriteSocketFile bytes c = .ok () { c with socketFile := some (content ++ bytes) } := by
  unfold fwriteSocketFile
  rw [run_bind_ok (run_get c)]
  simp only [hfile]
  rfl

/-- With nothing to copy the loop leaves the connection alone. -/
theorem internalPutbytesLoop_nil (fuel : ℕ) (c : Comm) :
    internalPutbytesLoop fuel [] c = .ok [] c := by
  cases fuel with
  | zero => rfl
  | succ fuel =>
      rw [internalPutbytesLoop, run_bind_ok (run_get c)]
      rfl

/-- A full send buffer redirects the reply and leaves all of `s` for the socket file. -/
theorem internalPutbytesLoop_full {c : Comm} (hfile : c.socketFile.isSome) (hroom : c.room = 0)
    {s : List UInt8} (hs : s ≠ []) (fuel : ℕ) :
    internalPutbytesLoop (fuel + 1) s c = .ok s c.redirect := by
  obtain ⟨content, hcontent⟩ := Option.isSome_iff_exists.mp hfile
  have hlen : s.length ≠ 0 := by simpa using hs
  have hfull : toSizeT c.pqSendBufferSize ≤ c.pqSendPointer := Nat.sub_eq_zero_iff_le.mp hroom
  rw [internalPutbytesLoop, run_bind_ok (run_get c), if_neg hlen, if_pos hfull,
    run_bind_ok (fwriteSocketFile_eq hcontent _), run_bind_ok (run_modify _ _)]
  simp [Comm.redirect, hcontent]

/-- A round with room copies as much as fits. -/
theorem internalPutbytesLoop_copy {c : Comm} (hroom : 0 < c.room) {s : List UInt8} (hs : s ≠ [])
    (fuel : ℕ) :
    internalPutbytesLoop (fuel + 1) s c =
      internalPutbytesLoop fuel (s.drop c.room) (c.copyOut (s.take c.room)) := by
  have hlen : s.length ≠ 0 := by simpa using hs
  have hfull : ¬toSizeT c.pqSendBufferSize ≤ c.pqSendPointer :=
    Nat.not_le.mpr (Nat.lt_of_sub_pos hroom)
  rw [internalPutbytesLoop, run_bind_ok (run_get c), if_neg hlen, if_neg hfull,
    run_bind_ok (run_modify _ _)]
  rw [← List.take_eq_take_min, ← List.drop_eq_drop_min]
  rfl

/-- Once the reply is redirected the rest goes to the socket file. -/
theorem fwriteRedirected_sockfiles {c : Comm} (hfile : c.socketFile.isSome)
    (hsock : c.sockfiles = true) (s : List UInt8) : fwriteRedirected s c = .ok () (c.spill s) := by
  obtain ⟨content, hcontent⟩ := Option.isSome_iff_exists.mp hfile
  rw [fwriteRedirected, run_bind_ok (run_get c), if_pos hsock,
    run_bind_ok (fwriteSocketFile_eq hcontent _)]
  simp [Comm.spill, hcontent]

/-- Without a redirect nothing goes to the socket file. -/
theorem fwriteRedirected_cma {c : Comm} (hsock : ¬c.sockfiles = true) (s : List UInt8) :
    fwriteRedirected s c = .ok () c := by
  rw [fwriteRedirected, run_bind_ok (run_get c), if_neg hsock]
  rfl

/-- **Closed form of `internal_putbytes`**, for a connection with an open socket file. -/
theorem internalPutbytes_eq {c : Comm} (hfile : c.socketFile.isSome) (s : List UInt8) :
    internalPutbytes s c = .ok () (c.putbytes s) := by
  have hredirect : ∀ c : Comm, c.socketFile.isSome → c.redirect.socketFile.isSome := by
    intro c hc
    simpa [Comm.redirect] using hc
  unfold internalPutbytes Comm.putbytes
  rw [run_bind_ok (run_get c)]
  by_cases hsock : c.sockfiles = true
  · rw [if_pos hsock, if_pos hsock, run_bind_ok (run_pure _ _)]
    exact fwriteRedirected_sockfiles hfile hsock s
  rw [if_neg hsock, if_neg hsock]
  by_cases hs : s = []
  · subst hs
    rw [if_pos rfl, run_bind_ok (internalPutbytesLoop_nil _ c)]
    exact fwriteRedirected_cma hsock []
  rw [if_neg hs]
  have hpos : 0 < s.length := List.length_pos_iff.mpr hs
  by_cases hfit : s.length ≤ c.room
  · have hloop : internalPutbytesLoop (s.length + 1) s c = .ok [] (c.copyOut s) := by
      rw [internalPutbytesLoop_copy (by omega) hs, List.drop_of_length_le hfit,
        List.take_of_length_le hfit, internalPutbytesLoop_nil]
    have hsock' : ¬(c.copyOut s).sockfiles = true := hsock
    rw [if_pos hfit, run_bind_ok hloop]
    exact fwriteRedirected_cma hsock' []
  rw [if_neg hfit]
  by_cases hroom : c.room = 0
  · rw [if_pos hroom, run_bind_ok (internalPutbytesLoop_full hfile hroom hs _)]
    exact fwriteRedirected_sockfiles (hredirect c hfile) rfl s
  · rw [if_neg hroom]
    have hrest : s.drop c.room ≠ [] := by
      simpa [List.drop_eq_nil_iff] using hfit
    have hfull : (c.copyOut (s.take c.room)).room = 0 := by
      simp only [Comm.copyOut_room, List.length_take]
      omega
    have hfile' : (c.copyOut (s.take c.room)).socketFile.isSome := hfile
    have hloop : internalPutbytesLoop (s.length + 1) s c =
        .ok (s.drop c.room) (c.copyOut (s.take c.room)).redirect := by
      obtain ⟨n, hn⟩ := Nat.exists_eq_succ_of_ne_zero hpos.ne'
      rw [internalPutbytesLoop_copy (Nat.pos_of_ne_zero hroom) hs, hn]
      exact internalPutbytesLoop_full hfile' hfull hrest n
    rw [run_bind_ok hloop]
    exact fwriteRedirected_sockfiles (hredirect _ hfile') rfl _

/-! ## Sequences of sends -/

/-- One thing that the backend does to the send side of the connection. -/
inductive SendOp where
  /-- `internal_putbytes`. -/
  | putbytes (s : List UInt8)
  /-- `internal_flush`. -/
  | flush
  deriving DecidableEq, Repr

/-- The bytes that a send puts on the connection. -/
def SendOp.bytes : SendOp → List UInt8
  | putbytes s => s
  | flush => []

/-- Run one send. -/
def SendOp.run : SendOp → CommM Unit
  | putbytes s => internalPutbytes s
  | flush => internalFlush

/-- Run a sequence of sends. -/
def runSends : List SendOp → CommM Unit
  | [] => pure ()
  | op :: ops => do
    op.run
    runSends ops

/-- The connection after one send. -/
def Comm.send (c : Comm) : SendOp → Comm
  | .putbytes s => c.putbytes s
  | .flush => if c.sockfiles then { c with pqSendPointer := 0 } else c

/-- The socket file stays open. -/
@[simp] theorem Comm.putbytes_socketFile_isSome (c : Comm) (s : List UInt8) :
    (c.putbytes s).socketFile.isSome = c.socketFile.isSome := by
  unfold Comm.putbytes
  split_ifs <;> simp [Comm.spill, Comm.redirect]

@[simp] theorem Comm.send_socketFile_isSome (c : Comm) (op : SendOp) :
    (c.send op).socketFile.isSome = c.socketFile.isSome := by
  cases op with
  | putbytes s => exact c.putbytes_socketFile_isSome s
  | flush => unfold Comm.send; split_ifs <;> rfl

/-- **Closed form of a sequence of sends.** -/
theorem runSends_eq {c : Comm} (hfile : c.socketFile.isSome) (ops : List SendOp) :
    runSends ops c = .ok () (ops.foldl Comm.send c) := by
  induction ops generalizing c with
  | nil => rfl
  | cons op ops ih =>
      have hop : op.run c = .ok () (c.send op) := by
        cases op with
        | putbytes s => exact internalPutbytes_eq hfile s
        | flush => rfl
      rw [runSends, run_bind_ok hop, List.foldl_cons]
      exact ih (by simpa using hfile)

/-! ## The reply -/

/-- The reply put so far, where it is. -/
def Comm.reply (c : Comm) : List UInt8 :=
  if c.sockfiles then c.socketFile.getD [] else c.mem.read c.pqSendBuffer c.pqSendPointer

/-- The socket file is open, and empty as long as the reply is in the send buffer. -/
def FileReady (c : Comm) : Prop :=
  c.socketFile.isSome ∧ (c.sockfiles = false → c.socketFile = some [])

/-- **`internal_putbytes` appends to the reply**, also when it redirects it. -/
theorem reply_putbytes {c : Comm} (hfile : FileReady c) (s : List UInt8) :
    (c.putbytes s).reply = c.reply ++ s := by
  obtain ⟨content, hcontent⟩ := Option.isSome_iff_exists.mp hfile.1
  by_cases hsock : c.sockfiles = true
  · simp [Comm.putbytes, Comm.reply, Comm.spill, hsock, hcontent]
  have hcma : c.sockfiles = false := by simpa using hsock
  have hempty := hfile.2 hcma
  -- a copy extends the reply in the send buffer
  have hcopy : ∀ bytes, (c.copyOut bytes).mem.read c.pqSendBuffer (c.pqSendPointer + bytes.length) =
      c.mem.read c.pqSendBuffer c.pqSendPointer ++ bytes :=
    fun bytes => Memory.read_write_append c.mem c.pqSendBuffer c.pqSendPointer bytes
  have hreply : c.reply = c.mem.read c.pqSendBuffer c.pqSendPointer := by
    rw [Comm.reply, if_neg hsock]
  rw [hreply, Comm.putbytes, if_neg hsock]
  split_ifs with hs hfit hroom
  · rw [hs, List.append_nil, hreply]
  · rw [Comm.reply, if_neg (by simpa using hcma)]
    exact hcopy s
  · simp [Comm.reply, Comm.spill, Comm.redirect, hempty]
  · have hlong := hcopy (s.take c.room)
    have hptr : (c.copyOut (s.take c.room)).pqSendPointer =
        c.pqSendPointer + (s.take c.room).length := rfl
    have hbuf : (c.copyOut (s.take c.room)).pqSendBuffer = c.pqSendBuffer := rfl
    simp only [Comm.reply, Comm.spill, Comm.redirect, Comm.copyOut_socketFile, hempty, hptr, hbuf,
      if_true, Option.map_some, Option.getD_some, List.nil_append, hlong]
    rw [List.append_assoc, List.take_append_drop]

/-- `internal_putbytes` leaves the socket file ready. -/
theorem FileReady.putbytes {c : Comm} (h : FileReady c) (s : List UInt8) : FileReady (c.putbytes s) := by
  refine ⟨by simpa using h.1, ?_⟩
  unfold Comm.putbytes
  split_ifs with hsock hs hfit hroom
  · exact fun hfalse => absurd (hsock.symm.trans hfalse) (by simp)
  · exact h.2
  · exact h.2
  · exact fun hfalse => absurd hfalse (by simp [Comm.spill, Comm.redirect])
  · exact fun hfalse => absurd hfalse (by simp [Comm.spill, Comm.redirect])

/-- A flush does not change the reply. -/
theorem reply_flush (c : Comm) : (c.send .flush).reply = c.reply := by
  rw [Comm.send]
  split_ifs with hsock
  · simp [Comm.reply, hsock]
  · rfl

/-- A send appends its bytes to the reply. -/
theorem reply_send {c : Comm} (hfile : FileReady c) (op : SendOp) :
    (c.send op).reply = c.reply ++ op.bytes := by
  cases op with
  | putbytes s => exact reply_putbytes hfile s
  | flush => rw [reply_flush, SendOp.bytes, List.append_nil]

/-- A send leaves the socket file ready. -/
theorem FileReady.send {c : Comm} (h : FileReady c) (op : SendOp) : FileReady (c.send op) := by
  cases op with
  | putbytes s => exact h.putbytes s
  | flush =>
      rw [Comm.send]
      split_ifs
      · exact h
      · exact h

/-! ## The receive side -/

/-- Copies into the send buffer, if there will be any, land apart from the receive buffer. -/
def SendsApart (c : Comm) : Prop :=
  c.sockfiles = false →
    c.pqSendBuffer.block ≠ c.pqRecvBuffer.block ∨
      c.pqRecvBuffer.offset + c.pqRecvLength ≤ c.pqSendBuffer.offset

/-- One copy keeps the receive side. -/
theorem sameInput_copyOut {c : Comm} (hsock : c.sockfiles = false) (hapart : SendsApart c)
    (bytes : List UInt8) : SameInput c (c.copyOut bytes) := by
  refine ⟨rfl, ?_⟩
  -- the copy goes to another block, or behind the receive buffer
  rcases hapart hsock with hblock | hle
  · exact Memory.read_write_of_ne _ _ _ (fun h => hblock h.symm)
  · exact Memory.read_write_of_le _ _ (by simp only [Ptr.add_offset]; omega)

/-- Spilling bytes to the socket file leaves the input alone. -/
theorem sameInput_spill (c : Comm) (bytes : List UInt8) : SameInput c (c.spill bytes) := by
  constructor <;> rfl

/-- Redirecting the reply to the socket file leaves the input alone. -/
theorem sameInput_redirect (c : Comm) : SameInput c c.redirect := by
  constructor <;> rfl

/-- **`internal_putbytes` keeps the receive side**: the request is never overwritten. -/
theorem sameInput_putbytes {c : Comm} (hapart : SendsApart c) (s : List UInt8) :
    SameInput c (c.putbytes s) := by
  unfold Comm.putbytes
  by_cases hsock : c.sockfiles = true
  · rw [if_pos hsock]
    exact sameInput_spill c s
  rw [if_neg hsock]
  have hcopy := fun bytes => sameInput_copyOut (by simpa using hsock) hapart bytes
  split_ifs
  · exact SameInput.refl c
  · exact hcopy s
  · exact (sameInput_redirect c).trans (sameInput_spill _ s)
  · exact ((hcopy _).trans (sameInput_redirect _)).trans (sameInput_spill _ _)

/-- After `internal_putbytes` later copies still land apart from the receive buffer. -/
theorem SendsApart.putbytes {c : Comm} (hapart : SendsApart c) (s : List UInt8) :
    SendsApart (c.putbytes s) := by
  unfold Comm.putbytes
  split_ifs with hsock
  · exact hapart
  · exact hapart
  · exact hapart
  · exact fun h => absurd h (by simp [Comm.spill, Comm.redirect])
  · exact fun h => absurd h (by simp [Comm.spill, Comm.redirect])

/-- Sends keep the receive side, but for the bytes in the buffer. -/
theorem recvSide_send (c : Comm) (op : SendOp) : (c.send op).recvSide = c.recvSide := by
  cases op with
  | putbytes s =>
      rw [Comm.send, Comm.putbytes]
      split_ifs <;> rfl
  | flush =>
      rw [Comm.send]
      split_ifs <;> rfl

/-- A send apart from the input leaves it alone. -/
theorem sameInput_send {c : Comm} (hapart : SendsApart c) (op : SendOp) : SameInput c (c.send op) := by
  cases op with
  | putbytes s => exact sameInput_putbytes hapart s
  | flush =>
      refine ⟨recvSide_send c .flush, ?_⟩
      rw [Comm.send]
      split_ifs <;> rfl

/-- Sends apart from the input stay apart from it. -/
theorem SendsApart.send {c : Comm} (hapart : SendsApart c) (op : SendOp) : SendsApart (c.send op) := by
  cases op with
  | putbytes s => exact hapart.putbytes s
  | flush =>
      rw [Comm.send]
      split_ifs
      · exact hapart
      · exact hapart

end PgliteBuild
