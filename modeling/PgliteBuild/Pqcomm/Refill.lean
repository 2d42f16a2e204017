import PgliteBuild.Pqcomm.Receive

/-! # Refills are transparent

A packet in a file reaches its readers through a receive buffer that `pq_recvbuf_fill` loads once and
`pq_recvbuf` reloads whenever it has run empty. Readers that load only then get the bytes of the file
in order and end of file after them, however the file size relates to the buffer size, and the globals
of the buffer account for every byte that was not returned yet. -/

namespace PgliteBuild

open BlockMemory Effect

/-! ## Readers -/

/-- The readers that load the buffer only when it is empty. -/
inductive ReadOp where
  /-- `pq_getbyte`. -/
  | getbyte
  /-- `pq_peekbyte`. -/
  | peekbyte
  /-- `pq_getbytes`. -/
  | getbytes (len : ℕ)
  deriving DecidableEq, Repr

/-- Run one reader; `none` is `EOF`. -/
def ReadOp.run (b : Build) (c : Comm) : ReadOp → Option (List UInt8) × Comm
  | getbyte => ((pqGetbyte b c).1.map ([·]), (pqGetbyte b c).2)
  | peekbyte => ((pqPeekbyte b c).1.map ([·]), (pqPeekbyte b c).2)
  | getbytes len => pqGetbytes b len c

/-- Run a sequence of readers. -/
def runReads (b : Build) : List ReadOp → Comm → List (Option (List UInt8)) × Comm
  | [], c => ([], c)
  | op :: ops, c =>
    let (value, c) := op.run b c
    let (values, c) := runReads b ops c
    (value :: values, c)

/-! ## The same readers on the file itself -/

/-- What a reader returns from the unread bytes `u`. -/
def ReadOp.value (u : List UInt8) : ReadOp → Option (List UInt8)
  | getbyte | peekbyte => u.head?.map ([·])
  | getbytes len => if len ≤ u.length then some (u.take len) else none

/-- What a reader leaves of the unread bytes `u`; one that runs short leaves nothing. -/
def ReadOp.rest (u : List UInt8) : ReadOp → List UInt8
  | getbyte => u.tail
  | peekbyte => u
  | getbytes len => u.drop len

/-- A sequence of readers on the bytes of a file. -/
def readFile : List ReadOp → List UInt8 → List (Option (List UInt8)) × List UInt8
  | [], u => ([], u)
  | op :: ops, u => (op.value u :: (readFile ops (op.rest u)).1, (readFile ops (op.rest u)).2)

/-! ## The bounds of the buffer -/

variable {b : Build} {n : ℕ} {u : List UInt8} {c : Comm}

/-- Loading an empty buffer stays within its size. -/
theorem recvIfEmpty_length (h : c.pqRecvLength ≤ b.recvBufferSize) :
    (recvIfEmpty b c).2.pqRecvLength ≤ b.recvBufferSize := by
  rw [recvIfEmpty]
  split_ifs with hdata
  · exact h
  -- an empty buffer is left-justified to length 0
  have hjustify : c.leftJustify.pqRecvLength = 0 := by
    rw [Comm.leftJustify]
    split_ifs
    · rfl
    · omega
  rw [pqRecvbuf]
  cases c.leftJustify.queryfp with
  | none =>
      show c.leftJustify.pqRecvLength ≤ b.recvBufferSize
      omega
  | some stream =>
      dsimp only
      split_ifs
      · show c.leftJustify.pqRecvLength ≤ b.recvBufferSize
        omega
      · show c.leftJustify.pqRecvLength +
          min (b.recvBufferSize - c.leftJustify.pqRecvPointer) stream.length ≤ b.recvBufferSize
        omega

/-- `pq_getbyte` keeps the buffer within its size. -/
theorem pqGetbyte_length (h : c.pqRecvLength ≤ b.recvBufferSize) :
    (pqGetbyte b c).2.pqRecvLength ≤ b.recvBufferSize := by
  have hload := recvIfEmpty_length h
  unfold pqGetbyte
  generalize recvIfEmpty b c = r at hload
  obtain ⟨eof, c'⟩ := r
  cases eof <;> exact hload

/-- `pq_peekbyte` keeps the buffer within its size. -/
theorem pqPeekbyte_length (h : c.pqRecvLength ≤ b.recvBufferSize) :
    (pqPeekbyte b c).2.pqRecvLength ≤ b.recvBufferSize := by
  have hload := recvIfEmpty_length h
  unfold pqPeekbyte
  generalize recvIfEmpty b c = r at hload
  obtain ⟨eof, c'⟩ := r
  cases eof <;> exact hload

/-- The loop of `pq_getbytes` keeps the buffer within its size. -/
theorem pqGetbytesLoop_length (fuel len : ℕ) (s : List UInt8) (h : c.pqRecvLength ≤ b.recvBufferSize) :
    (pqGetbytesLoop b fuel len s c).2.pqRecvLength ≤ b.recvBufferSize := by
  induction fuel generalizing len s c with
  | zero => exact h
  | succ fuel ih =>
      have hload := recvIfEmpty_length h
      unfold pqGetbytesLoop
      split_ifs
      · exact h
      generalize recvIfEmpty b c = r at hload
      obtain ⟨eof, c'⟩ := r
      cases eof with
      | true => exact hload
      | false => exact ih _ _ hload

/-! ## Every sequence of readers -/

/-- The globals of the buffer while `u` of a file is unread. -/
structure Buffered (b : Build) (u : List UInt8) (c : Comm) : Prop where
  pointer : c.pqRecvPointer ≤ c.pqRecvLength
  length : c.pqRecvLength ≤ b.recvBufferSize
  outstanding : 0 ≤ c.querylen
  account : (c.pqBufferRemainingData : ℤ) + c.querylen = u.length

/-- The connection reads on in a file, with `u` of it left. -/
structure ReadsFile (b : Build) (n : ℕ) (u : List UInt8) (c : Comm) : Prop
    extends Feeds b .file n u c where
  length : c.pqRecvLength ≤ b.recvBufferSize
  shut : c.queryfp = none → c.querylen = 0

/-- What is read of a file is its beginning in the buffer. -/
theorem ReadsFile.buffered (h : ReadsFile b n u c) : Buffered b u c := by
  have hahead : c.querylen = c.ahead := by
    cases hfp : c.queryfp with
    | none => rw [h.shut hfp, Comm.ahead, hfp]; rfl
    | some st => rw [(h.stream st hfp).2.2, Comm.ahead, hfp]; rfl
  have hlength := h.length_eq
  refine ⟨h.le, h.length, ?_, ?_⟩
  · rw [hahead]
    exact Int.natCast_nonneg _
  · rw [hahead, hlength]
    exact (Int.natCast_add _ _).symm

/-- **One reader** returns what it would return from the file, and reads on. -/
theorem ReadsFile.run (h : ReadsFile b n u c) (op : ReadOp) :
    (op.run b c).1 = op.value u ∧ ReadsFile b n (op.rest u) (op.run b c).2 ∧
      Reads c (op.run b c).2 := by
  cases op with
  | getbyte =>
      obtain ⟨hvalue, hset, hreads⟩ := pqGetbyte_spec h.toFeeds
      refine ⟨congrArg (Option.map ([·])) hvalue, ?_, hreads⟩
      exact { hset.toFeeds with length := pqGetbyte_length h.length, shut := hreads.shut h.shut }
  | peekbyte =>
      obtain ⟨hvalue, hfeeds, hreads⟩ := pqPeekbyte_spec h.toFeeds
      refine ⟨congrArg (Option.map ([·])) hvalue, ?_, hreads⟩
      exact { hfeeds with length := pqPeekbyte_length h.length, shut := hreads.shut h.shut }
  | getbytes len =>
      obtain ⟨hvalue, hfeeds, -, hreads⟩ := pqGetbytesLoop_spec (le_refl len) [] h.toFeeds
      refine ⟨hvalue, ?_, hreads⟩
      exact { hfeeds with
        length := pqGetbytesLoop_length len len [] h.length
        shut := hreads.shut h.shut }

/-- Readers see the file, whatever they read and wherever it is refilled. -/
theorem ReadsFile.runReads (h : ReadsFile b n u c) (ops : List ReadOp) :
    (runReads b ops c).1 = (readFile ops u).1 ∧
      ReadsFile b n (readFile ops u).2 (runReads b ops c).2 ∧ Reads c (runReads b ops c).2 := by
  induction ops generalizing u c with
  | nil => exact ⟨rfl, h, Reads.refl c⟩
  | cons op ops ih =>
      obtain ⟨hvalue, hfile, hreads⟩ := h.run op
      obtain ⟨hvalues, hrest, hreads'⟩ := ih hfile
      exact ⟨congrArg₂ List.cons hvalue hvalues, hrest, hreads.trans hreads'⟩

/-- `pq_recvbuf_fill` starts to read a file from its byte 0. -/
theorem readsFile_fill (b : Build) (fp : List UInt8) (c : Comm) :
    ReadsFile b fp.length fp (pqRecvbufFill b fp fp.length c) := by
  refine { feeds_pqRecvbufFill fp with length := ?_, shut := ?_ }
  · unfold pqRecvbufFill
    split_ifs with hbig
    · exact Nat.min_le_left _ _
    · exact Nat.not_lt.mp hbig
  · unfold pqRecvbufFill
    split_ifs
    · intro hnone
      cases hnone
    · exact fun _ => rfl

/-- **Refills are transparent**: whatever sequence of readers follows `pq_recvbuf_fill`, they return what
they would return from the file, the bytes taken and those left make up the file, and the globals
account for what is left. -/
theorem refill_transparent (b : Build) (fp : List UInt8) (c : Comm) (ops : List ReadOp) :
    (runReads b ops (pqRecvbufFill b fp fp.length c)).1 = (readFile ops fp).1 ∧
      (runReads b ops (pqRecvbufFill b fp fp.length c)).2.taken ++ (readFile ops fp).2 =
        c.taken ++ fp ∧
      Buffered b (readFile ops fp).2 (runReads b ops (pqRecvbufFill b fp fp.length c)).2 := by
  have hstart := readsFile_fill b fp c
  obtain ⟨hvalues, hfile, hreads⟩ := hstart.runReads ops
  refine ⟨hvalues, ?_, hfile.buffered⟩
  have htaken : (pqRecvbufFill b fp fp.length c).taken = c.taken := by
    unfold pqRecvbufFill
    split_ifs <;> rfl
  have hstream := hreads.stream
  rwa [hfile.unread, hstart.unread, htaken] at hstream

/-- A byte that was peeked at is read again, and the end of the file shows after the last byte. -/
example : ((runReads .emscripten [.getbytes 3, .peekbyte, .getbyte, .getbyte]
    (pqRecvbufFill .emscripten [1, 2, 3, 4] 4 .boot)).1) =
      [some [1, 2, 3], some [4], some [4], none] := by decide

end PgliteBuild
