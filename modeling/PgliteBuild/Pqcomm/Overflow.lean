import PgliteBuild.Pqcomm.InputOnce

/-! # A reply that outgrows the memory area

The reply to a request in the memory area lies behind the request as long as it fits the room there. The
first byte that does not fit takes all of it to the socket file, and nothing comes back. Whatever is sent,
`ReplyPlaced` says where the reply is. -/

namespace PgliteBuild

open BlockMemory CInt Effect

/-! ## What is counted -/

section Count

variable {c c' : Comm} {n : ℤ}

/-- **`SOCKET_DATA` counts every byte that is put**, in the area or in the file. -/
theorem socketData_putbytes (h : c.socketData = toInt32 n) (s : List UInt8) :
    (c.putbytes s).socketData = toInt32 (n + s.length) := by
  have hspill : ∀ (c : Comm) (n : ℤ) (s : List UInt8), c.socketData = toInt32 n →
      (c.spill s).socketData = toInt32 (n + s.length) := by
    intro c n s hc
    rw [Comm.spill, hc, toInt32_toInt32_add]
  rw [Comm.putbytes]
  split_ifs with hsock hnil
  · exact hspill c n s h
  · simpa [hnil] using h
  · exact hspill c n s h
  · exact hspill c.redirect n s h
  · -- the bytes that fit are counted first
    have hcopy : (c.copyOut (s.take c.room)).redirect.socketData = toInt32 (n + (s.take c.room).length) :=
      hspill c n (s.take c.room) h
    have hsplit : (s.take c.room).length + (s.drop c.room).length = s.length := by
      rw [← List.length_append, List.take_append_drop]
    rw [hspill _ _ _ hcopy, ← hsplit]
    push_cast
    rw [add_assoc]

/-- A send adds its bytes to `SOCKET_DATA`, modulo 2^32. -/
theorem socketData_send (h : c.socketData = toInt32 n) (op : SendOp) :
    (c.send op).socketData = toInt32 (n + op.bytes.length) := by
  cases op with
  | putbytes s => exact socketData_putbytes h s
  | flush =>
      rw [Comm.send]
      split_ifs <;> simpa [SendOp.bytes] using h

/-- Sends add their bytes to `SOCKET_DATA`, modulo 2^32. -/
theorem socketData_sends (h : c.socketData = toInt32 n) (ops : List SendOp) :
    (ops.foldl Comm.send c).socketData = toInt32 (n + (ops.flatMap SendOp.bytes).length) := by
  induction ops generalizing c n with
  | nil => simpa using h
  | cons op ops ih =>
      rw [List.foldl_cons, ih (socketData_send h op), List.flatMap_cons, List.length_append, Int.natCast_add,
        add_assoc]

/-- Without bytes nothing is written to the socket file. -/
theorem socketFile_send {op : SendOp} (hnil : op.bytes = []) : (c.send op).socketFile = c.socketFile := by
  cases op with
  | putbytes s =>
      obtain rfl : s = [] := hnil
      rw [Comm.send, Comm.putbytes]
      by_cases hsock : c.sockfiles = true
      · rw [if_pos hsock]
        simp [Comm.spill]
      · rw [if_neg hsock, if_pos rfl]
  | flush =>
      rw [Comm.send]
      split_ifs <;> rfl

/-- Sends without bytes leave the socket file alone. -/
theorem socketFile_sends {ops : List SendOp} (hnil : ops.flatMap SendOp.bytes = []) :
    (ops.foldl Comm.send c).socketFile = c.socketFile := by
  induction ops generalizing c with
  | nil => rfl
  | cons op ops ih =>
      rw [List.flatMap_cons, List.append_eq_nil_iff] at hnil
      rw [List.foldl_cons, ih hnil.2, socketFile_send hnil.1]

/-- Sends neither open the socket file nor close it. -/
theorem isSome_socketFile_sends (ops : List SendOp) :
    (ops.foldl Comm.send c).socketFile.isSome = c.socketFile.isSome := by
  induction ops generalizing c with
  | nil => rfl
  | cons op ops ih => rw [List.foldl_cons, ih, Comm.send_socketFile_isSome]

/-- Starting a message counts nothing. -/
theorem startmsgread_count (b : Build) (c : Comm) :
    (c.startmsgread b).socketFile = c.socketFile ∧ (c.startmsgread b).socketData = c.socketData := by
  unfold Comm.startmsgread Comm.pointBuffers
  split_ifs <;> exact ⟨rfl, rfl⟩

/-- An operation of a call that puts nothing counts nothing. -/
theorem step_counts_none {b : Build} {op : CallOp} (hopen : c.socketFile.isSome = true)
    (hdata : c.socketData = toInt32 n) (hbytes : op.bytes = []) (hstep : op.step b c c') :
    c'.socketFile = c.socketFile ∧ c'.socketData = toInt32 n := by
  have hstart := startmsgread_count b c
  have hside : ∀ c c' : Comm, c'.sendSide = c.sendSide →
      c'.socketFile = c.socketFile ∧ c'.socketData = c.socketData :=
    fun _ _ h => ⟨(congrArg Comm.socketFile h :), (congrArg Comm.socketData h :)⟩
  rw [CallOp.step] at hstep
  cases op with
  | startmsg =>
      rcases Bool.eq_false_or_eq_true c.pqCommReadingMsg with hreading | hreading
      · rw [CallOp.run, run_bind_error (pqStartmsgread_reading hreading)] at hstep
        cases hstep
      · rw [CallOp.run, run_bind_ok (pqStartmsgread_eq hreading)] at hstep
        cases hstep
        obtain ⟨hfile, hcount⟩ := hside _ _ (pqGetbyte_sendSide b (c.startmsgread b))
        exact ⟨hfile.trans hstart.1, hcount.trans (hstart.2.trans hdata)⟩
  | getbyte =>
      cases hstep
      obtain ⟨hfile, hcount⟩ := hside _ _ (pqGetbyte_sendSide b c)
      exact ⟨hfile, hcount.trans hdata⟩
  | getmessage maxlen =>
      cases hstep
      obtain ⟨flag, hsend⟩ := pqGetmessage_sendSide b maxlen c
      obtain ⟨hfile, hcount⟩ := hside _ _ hsend
      exact ⟨hfile, hcount.trans hdata⟩
  | endmsgread =>
      cases hstep
      exact ⟨rfl, hdata⟩
  | send op =>
      have hrun : op.run c = .ok () (c.send op) := by
        cases op with
        | putbytes s => exact internalPutbytes_eq hopen s
        | flush => rfl
      have hnil : op.bytes = [] := hbytes
      rw [CallOp.run, hrun] at hstep
      cases hstep
      have hcount := socketData_send hdata op
      rw [hnil, List.length_nil, Int.natCast_zero, add_zero] at hcount
      exact ⟨socketFile_send hnil, hcount⟩

end Count

/-! ## Where the reply is -/

/-- All that was put since the reply began is behind address `lo` of the memory area, if it fits the `room`
there, and otherwise in the socket file. -/
structure ReplyPlaced (lo room : ℕ) (put : List UInt8) (c : Comm) : Prop where
  file : FileReady c
  reply : c.reply = put
  count : c.socketData = toInt32 put.length
  area : c.sockfiles = false →
    c.pqSendBuffer = ⟨.cma, lo⟩ ∧ toSizeT c.pqSendBufferSize = room ∧ put.length ≤ room
  spilled : c.sockfiles = true → room < put.length

variable {lo room : ℕ} {put : List UInt8} {c c' : Comm}

/-- In the memory area the send pointer is behind the reply. -/
theorem ReplyPlaced.pointer (h : ReplyPlaced lo room put c) (hsock : c.sockfiles = false) :
    c.pqSendPointer = put.length := by
  have hreply := h.reply
  rw [Comm.reply, if_neg (by simp [hsock])] at hreply
  rw [← hreply, Memory.length_read]

/-- In the memory area the reply is where the request ends. -/
theorem ReplyPlaced.read (h : ReplyPlaced lo room put c) (hsock : c.sockfiles = false) :
    c.mem.read ⟨.cma, lo⟩ put.length = put := by
  have hreply := h.reply
  rw [Comm.reply, if_neg (by simp [hsock]), (h.area hsock).1, h.pointer hsock] at hreply
  exact hreply

/-- In the socket file the reply is all of it. -/
theorem ReplyPlaced.socketFile (h : ReplyPlaced lo room put c) (hsock : c.sockfiles = true) :
    c.socketFile = some put := by
  obtain ⟨content, hcontent⟩ := Option.isSome_iff_exists.mp h.file.1
  have hreply := h.reply
  rw [Comm.reply, if_pos hsock, hcontent, Option.getD_some] at hreply
  rw [hcontent, hreply]

/-- **Putting bytes** appends them to the reply, wherever it is then. -/
theorem ReplyPlaced.putbytes (h : ReplyPlaced lo room put c) (s : List UInt8) :
    ReplyPlaced lo room (put ++ s) (c.putbytes s) := by
  have hfile := h.file.putbytes s
  have hreply : (c.putbytes s).reply = put ++ s := by rw [reply_putbytes h.file, h.reply]
  have hlen : (put ++ s).length = put.length + s.length := List.length_append
  have hcount : (c.putbytes s).socketData = toInt32 (put ++ s).length := by
    rw [socketData_putbytes h.count, hlen, Int.natCast_add]
  by_cases hsock : c.sockfiles = true
  · -- the reply is in the socket file already
    have hspill : c.putbytes s = c.spill s := by rw [Comm.putbytes, if_pos hsock]
    have hover := h.spilled hsock
    rw [hspill] at hfile hreply hcount ⊢
    exact ⟨hfile, hreply, hcount, fun hcma => absurd (hsock.symm.trans hcma) (by simp), fun _ => by omega⟩
  have hcma : c.sockfiles = false := by simpa using hsock
  obtain ⟨hbuf, hsize, hfits⟩ := h.area hcma
  have hroom : c.room = room - put.length := by rw [Comm.room, hsize, h.pointer hcma]
  by_cases hnil : s = []
  · have hsame : c.putbytes s = c := by rw [Comm.putbytes, if_neg hsock, if_pos hnil]
    rw [hsame, hnil, List.append_nil]
    exact h
  by_cases hfit : s.length ≤ c.room
  · -- the bytes fit behind the reply
    have hcopy : c.putbytes s = c.copyOut s := by rw [Comm.putbytes, if_neg hsock, if_neg hnil, if_pos hfit]
    rw [hcopy] at hfile hreply hcount ⊢
    refine ⟨hfile, hreply, hcount, fun _ => ⟨hbuf, hsize, by omega⟩, fun htrue => ?_⟩
    exact absurd (hcma.symm.trans htrue) (by simp)
  · -- they do not, and the reply leaves the area
    have hover : room < (put ++ s).length := by omega
    by_cases hfull : c.room = 0
    · have hredirect : c.putbytes s = c.redirect.spill s := by
        rw [Comm.putbytes, if_neg hsock, if_neg hnil, if_neg hfit, if_pos hfull]
      rw [hredirect] at hfile hreply hcount ⊢
      exact ⟨hfile, hreply, hcount, (fun hcma => by cases hcma), fun _ => hover⟩
    · have hredirect : c.putbytes s = (c.copyOut (s.take c.room)).redirect.spill (s.drop c.room) := by
        rw [Comm.putbytes, if_neg hsock, if_neg hnil, if_neg hfit, if_neg hfull]
      rw [hredirect] at hfile hreply hcount ⊢
      exact ⟨hfile, hreply, hcount, (fun hcma => by cases hcma), fun _ => hover⟩

/-- A send appends its bytes to the reply. -/
theorem ReplyPlaced.send (h : ReplyPlaced lo room put c) (op : SendOp) :
    ReplyPlaced lo room (put ++ op.bytes) (c.send op) := by
  cases op with
  | putbytes s => exact h.putbytes s
  | flush =>
      rw [SendOp.bytes, List.append_nil]
      have hreply := reply_flush c
      rw [Comm.send] at hreply ⊢
      split_ifs with hsock
      · rw [if_pos hsock] at hreply
        refine ⟨h.file, hreply.trans h.reply, h.count, fun hcma => ?_, h.spilled⟩
        exact absurd (hsock.symm.trans hcma) (by simp)
      · exact h

/-- Sends place their bytes behind the reply. -/
theorem ReplyPlaced.sends (h : ReplyPlaced lo room put c) (ops : List SendOp) :
    ReplyPlaced lo room (put ++ ops.flatMap SendOp.bytes) (ops.foldl Comm.send c) := by
  induction ops generalizing put c with
  | nil =>
      rw [List.flatMap_nil, List.append_nil]
      exact h
  | cons op ops ih =>
      rw [List.flatMap_cons, ← List.append_assoc]
      exact ih (h.send op)

/-- Reading leaves the reply where it is. -/
theorem ReplyPlaced.reads (h : ReplyPlaced lo room put c) (hreads : Reads c c') (hfp : c.queryfp = none) :
    ReplyPlaced lo room put c' := by
  obtain ⟨hmem, -, -⟩ := hreads.still hfp
  have hsock : c'.sockfiles = c.sockfiles := (congrArg Comm.sockfiles hreads.same :)
  have hfile : c'.socketFile = c.socketFile := (congrArg Comm.socketFile hreads.same :)
  have hbuf : c'.pqSendBuffer = c.pqSendBuffer := (congrArg Comm.pqSendBuffer hreads.same :)
  have hptr : c'.pqSendPointer = c.pqSendPointer := (congrArg Comm.pqSendPointer hreads.same :)
  have hsize : c'.pqSendBufferSize = c.pqSendBufferSize := (congrArg Comm.pqSendBufferSize hreads.same :)
  have hdata : c'.socketData = c.socketData := (congrArg Comm.socketData hreads.same :)
  refine ⟨?_, ?_, hdata.trans h.count, ?_, ?_⟩
  · rw [FileReady, hfile, hsock]
    exact h.file
  · rw [← h.reply, Comm.reply, Comm.reply, hsock, hfile, hmem, hbuf, hptr]
  · rw [hsock, hbuf, hsize]
    exact h.area
  · rw [hsock]
    exact h.spilled

/-- Starting a message inside a packet leaves the reply where it is. -/
theorem ReplyPlaced.startmsgread {b : Build} (h : ReplyPlaced lo room put c)
    (hmid : 0 < c.pqBufferRemainingData ∨ c.sockfiles = true) :
    ReplyPlaced lo room put (c.startmsgread b) := by
  rcases Nat.eq_zero_or_pos c.pqBufferRemainingData with hzero | hpos
  · have hsock : c.sockfiles = true := hmid.resolve_left hzero.not_gt
    rw [startmsgread_file hzero hsock]
    refine ⟨h.file, ?_, h.count, fun hcma => absurd (hsock.symm.trans hcma) (by simp), h.spilled⟩
    rw [← h.reply, Comm.reply, Comm.reply, if_pos hsock, if_pos hsock]
  · rw [startmsgread_of_buffered hpos]
    exact ⟨h.file, h.reply, h.count, h.area, h.spilled⟩

end PgliteBuild
