import PgliteBuild.Foundation.BlockMemory
import PgliteBuild.Foundation.CInt
import PgliteBuild.Foundation.Effect
import PgliteBuild.Foundation.Framing

/-! # The patched `pqcomm.c`

The receive and send side of the frontend/backend connection as the pglite patch leaves it. A
request reaches the backend in one of two ways: in the contiguous memory area at the bottom of the
wasm memory (`cma_rsize > 0`, read in place from address 1), or in the socket file `PGS_IN`
(`pq_recvbuf_fill` and the refills of `pq_recvbuf`). A reply is put behind the request in the memory
area, or in the file behind `SOCKET_FILE` once `sockfiles` is set.

What the patch does not show is upstream PostgreSQL: the left-justify code of `pq_recvbuf`,
`pq_getbyte`, `pq_getbytes`, `pq_getmessage`, the reset of `PqSendPointer` in `pq_startmsgread` and
the copy loop of `internal_putbytes`. -/

namespace PgliteBuild

open BlockMemory CInt Effect Framing

/-! ## Build constants -/

/-- The compile-time constants of one build. -/
structure Build where
  /-- `CMA_MB`, the size of the contiguous memory area in MiB. -/
  cmaMb : ℕ
  /-- `PQ_RECV_BUFFER_SIZE`. -/
  recvBufferSize : ℕ
  /-- `PQ_SEND_BUFFER_SIZE`. -/
  sendBufferSize : ℕ
  /-- Whether `sigsetjmp` works (emscripten) or errors stop the activation (wasi). -/
  sigsetjmp : Bool
  /-- Whether a long jump takes the local `pipelining` back to what it was at `sigsetjmp`. It is assigned
  behind `sigsetjmp` and not volatile, so that C leaves its value open: a local that is kept in a register
  returns to its old value, one that is kept in memory has its last. -/
  pipeliningRestored : Bool
  cmaMb_pos : 0 < cmaMb
  recvBufferSize_pos : 0 < recvBufferSize

/-- `CMA_MB * 1024 * 1024` in `int` arithmetic: the end of the contiguous memory area. -/
def Build.cmaEnd (b : Build) : ℤ := toInt32 (b.cmaMb * 1024 * 1024)

/-- The emscripten build with the default sizes, optimised as a release is. -/
def Build.emscripten : Build := ⟨12, 8192, 8192, true, true, by decide, by decide⟩

/-- The wasi build with the default sizes, optimised as a release is. -/
def Build.wasi : Build := ⟨12, 8192, 8192, false, true, by decide, by decide⟩

/-! ## State -/

/-- The memory areas that `pqcomm.c` reads and writes. -/
inductive Block where
  /-- The wasm memory from address 0 on, where the contiguous memory area lies. -/
  | cma
  /-- `PqRecvBuffer_static`. -/
  | recvStatic
  /-- The send buffer that `pq_init` allocates. -/
  | sendAlloc
  deriving DecidableEq, Repr

/-- Why control leaves the code for good, or jumps to an error handler. -/
inductive Stop where
  /-- `ereport(ERROR)`: a long jump to `PG_exception_stack`. -/
  | error
  /-- `ereport(FATAL)`: the process exits with this message. -/
  | fatal (message : String)
  /-- `abort()`. -/
  | abort
  /-- A wasm trap: a null `FILE *` is used or a null pointer freed. -/
  | trap
  /-- The step budget of the model ran out: control has not left the loop yet. -/
  | outOfFuel
  deriving DecidableEq, Repr

/-- The globals of `pqcomm.c`, those it shares with `interactive_one`, the memory they point into
and the socket files. A `FILE *` is the list of the bytes still to be read from it, or of the bytes
written to it so far. -/
structure Comm where
  mem : Memory Block UInt8
  pqRecvBuffer : Ptr Block
  pqRecvPointer : ℕ
  pqRecvLength : ℕ
  querylen : ℤ
  queryfp : Option (List UInt8)
  pqCommReadingMsg : Bool
  pqSendBuffer : Ptr Block
  pqSendBufferSize : ℤ
  pqSendPointer : ℕ
  pqSendBufferSave : Option (Ptr Block)
  cmaRsize : ℤ
  sockfiles : Bool
  socketFile : Option (List UInt8)
  socketData : ℤ
  /-- The files behind `PGS_IN`, `PGS_OLOCK` and `PGS_OUT`. -/
  pgsIn : Option (List UInt8)
  pgsOlock : Option (List UInt8)
  pgsOut : Option (List UInt8)
  /-- History only: the bytes that readers have taken, in order. -/
  taken : List UInt8
  /-- History only: where `internal_putbytes` copied to, and how many bytes. -/
  copied : List (Ptr Block × ℕ)

/-- The globals before the first call. -/
def Comm.boot : Comm where
  mem := fun _ _ => 0
  pqRecvBuffer := ⟨.recvStatic, 0⟩
  pqRecvPointer := 0
  pqRecvLength := 0
  querylen := 0
  queryfp := none
  pqCommReadingMsg := false
  pqSendBuffer := ⟨.sendAlloc, 0⟩
  pqSendBufferSize := 0
  pqSendPointer := 0
  pqSendBufferSave := none
  cmaRsize := 0
  sockfiles := false
  socketFile := none
  socketData := 0
  pgsIn := none
  pgsOlock := none
  pgsOut := none
  taken := []
  copied := []

/-- Computations over the connection. -/
abbrev CommM (α : Type) := EStateM Stop Comm α

/-! ## Receiving -/

/-- `pq_buffer_remaining_data`: the unread bytes of the receive buffer. -/
def Comm.pqBufferRemainingData (c : Comm) : ℕ := c.pqRecvLength - c.pqRecvPointer

/-- The first lines of `pq_recvbuf`: move unread data to the start of the buffer. -/
def Comm.leftJustify (c : Comm) : Comm :=
  if 0 < c.pqRecvPointer then
    if c.pqRecvPointer < c.pqRecvLength then
      { c with
        mem := c.mem.write c.pqRecvBuffer
          (c.mem.read (c.pqRecvBuffer.add c.pqRecvPointer) (c.pqRecvLength - c.pqRecvPointer))
        pqRecvLength := c.pqRecvLength - c.pqRecvPointer
        pqRecvPointer := 0 }
    else { c with pqRecvLength := 0, pqRecvPointer := 0 }
  else c

/-- The refill of `pq_recvbuf`: `fread` into the start of the buffer. -/
def Comm.refill (c : Comm) (stream : List UInt8) (got : ℕ) : Comm :=
  { c with
    mem := c.mem.write c.pqRecvBuffer (stream.take got)
    querylen := c.querylen - got
    pqRecvLength := c.pqRecvLength + got
    queryfp := if c.querylen - got ≤ 0 then none else some (stream.drop got) }

/-- `pq_recvbuf`: load more input; `true` is `EOF`. -/
def pqRecvbuf (b : Build) (c : Comm) : Bool × Comm :=
  match c.leftJustify.queryfp with
  | none => (true, c.leftJustify)
  | some stream =>
    if c.leftJustify.querylen = 0 then (true, c.leftJustify)
    else
      let got := min (b.recvBufferSize - c.leftJustify.pqRecvPointer) stream.length
      (got == 0, c.leftJustify.refill stream got)

/-- The loop `while (PqRecvPointer >= PqRecvLength) if (pq_recvbuf()) return EOF;` of every reader:
a refill that succeeds leaves unread data (`pqRecvbuf_unread`), so one round is enough. -/
def recvIfEmpty (b : Build) (c : Comm) : Bool × Comm :=
  if c.pqRecvPointer < c.pqRecvLength then (false, c) else pqRecvbuf b c

/-- Hand the next `n` bytes of the buffer to a reader. -/
def Comm.take (c : Comm) (n : ℕ) : List UInt8 × Comm :=
  let bytes := c.mem.read (c.pqRecvBuffer.add c.pqRecvPointer) n
  (bytes, { c with pqRecvPointer := c.pqRecvPointer + n, taken := c.taken ++ bytes })

/-- `pq_getbyte`; `none` is `EOF`. -/
def pqGetbyte (b : Build) (c : Comm) : Option UInt8 × Comm :=
  match recvIfEmpty b c with
  | (true, c) => (none, c)
  | (false, c) => ((c.take 1).1.head?, (c.take 1).2)

/-- `pq_peekbyte`: as `pq_getbyte`, but the byte stays unread. -/
def pqPeekbyte (b : Build) (c : Comm) : Option UInt8 × Comm :=
  match recvIfEmpty b c with
  | (true, c) => (none, c)
  | (false, c) => ((c.take 1).1.head?, c)

/-- The copy loop of `pq_getbytes`. Every round copies a byte or more, so `len` rounds are enough. -/
def pqGetbytesLoop (b : Build) : ℕ → ℕ → List UInt8 → Comm → Option (List UInt8) × Comm
  | 0, _, s, c => (some s, c)
  | fuel + 1, len, s, c =>
    if len = 0 then (some s, c)
    else
      match recvIfEmpty b c with
      | (true, c) => (none, c)
      | (false, c) =>
        let amount := min (c.pqRecvLength - c.pqRecvPointer) len
        pqGetbytesLoop b fuel (len - amount) (s ++ (c.take amount).1) (c.take amount).2

/-- `pq_getbytes`: the next `len` bytes; `none` is `EOF`. -/
def pqGetbytes (b : Build) (len : ℕ) (c : Comm) : Option (List UInt8) × Comm :=
  pqGetbytesLoop b len len [] c

/-- `pq_getmessage`: a length word and the body it counts; `none` is `EOF`, with the message still
being read. -/
def pqGetmessage (b : Build) (maxlen : ℕ) (c : Comm) : Option (List UInt8) × Comm :=
  match pqGetbytes b 4 c with
  | (none, c) => (none, c)
  | (some lenword, c) =>
    if wordValue lenword < 4 ∨ maxlen < wordValue lenword then (none, c)
    else
      match pqGetbytes b (wordValue lenword - 4) c with
      | (none, c) => (none, c)
      | (some body, c) => (some body, { c with pqCommReadingMsg := false })

/-- `pq_recvbuf_fill`: load a packet of `packetlen` bytes from `fp`, or its first buffer full. -/
def pqRecvbufFill (b : Build) (fp : List UInt8) (packetlen : ℕ) (c : Comm) : Comm :=
  if b.recvBufferSize < packetlen then
    let got := min b.recvBufferSize fp.length
    { c with
      mem := c.mem.write c.pqRecvBuffer (fp.take got)
      queryfp := some (fp.drop got)
      querylen := packetlen - got
      pqRecvLength := got
      pqRecvPointer := 0 }
  else
    { c with
      mem := c.mem.write c.pqRecvBuffer (fp.take packetlen)
      pqRecvLength := packetlen
      queryfp := none
      querylen := 0
      pqRecvPointer := 0 }

/-! ## Starting and ending a message -/

/-- The part of `pq_startmsgread` that the patch adds: with no data left in the receive buffer, point
the buffers at the socket file's memory or at the contiguous memory area. -/
def Comm.pointBuffers (b : Build) (c : Comm) : Comm :=
  if c.pqBufferRemainingData = 0 then
    if c.sockfiles then
      { c with
        pqRecvBuffer := ⟨.recvStatic, 0⟩
        pqSendBuffer := c.pqSendBufferSave.getD c.pqSendBuffer
        pqSendBufferSize := b.sendBufferSize }
    else
      { c with
        pqRecvPointer := 0
        pqRecvLength := c.cmaRsize.toNat
        pqRecvBuffer := ⟨.cma, 1⟩
        pqSendPointer := 0
        pqSendBufferSave := some c.pqSendBuffer
        pqSendBuffer := ⟨.cma, 2 + c.cmaRsize.toNat⟩
        pqSendBufferSize := toInt32 (b.cmaEnd - (2 + c.cmaRsize)) }
  else c

/-- The message of the two `ereport(FATAL)` calls about a message that is still being read. -/
def syncLost : String := "terminating connection because protocol synchronization was lost"

/-- `pq_startmsgread`. -/
def pqStartmsgread (b : Build) : CommM Unit := do
  if (← get).pqCommReadingMsg then throw (.fatal syncLost)
  modify fun c => Comm.pointBuffers b { c with pqCommReadingMsg := true }

/-- `pq_endmsgread`. -/
def pqEndmsgread : CommM Unit := modify fun c => { c with pqCommReadingMsg := false }

/-! ## Sending -/

/-- `fwrite` to `SOCKET_FILE`. -/
def fwriteSocketFile (bytes : List UInt8) : CommM Unit := do
  match (← get).socketFile with
  | none => throw .trap
  | some content => modify fun c => { c with socketFile := some (content ++ bytes) }

/-- One `memcpy` of `internal_putbytes` into the send buffer. -/
def Comm.copyOut (c : Comm) (bytes : List UInt8) : Comm :=
  { c with
    mem := c.mem.write (c.pqSendBuffer.add c.pqSendPointer) bytes
    pqSendPointer := c.pqSendPointer + bytes.length
    socketData := toInt32 (c.socketData + bytes.length)
    copied := c.copied ++ [(c.pqSendBuffer.add c.pqSendPointer, bytes.length)] }

/-- The copy loop of `internal_putbytes`; the bytes it leaves are for the socket file. `int` and
`size_t` meet in the comparison and in the amount. Every round but the one that redirects copies a
byte or more. -/
def internalPutbytesLoop : ℕ → List UInt8 → CommM (List UInt8)
  | 0, s => pure s
  | fuel + 1, s => do
    let c ← get
    if s.length = 0 then pure s
    else if toSizeT c.pqSendBufferSize ≤ c.pqSendPointer then
      fwriteSocketFile (c.mem.read c.pqSendBuffer c.pqSendPointer)
      modify fun c => { c with sockfiles := true }
      pure s
    else
      let amount := min (toSizeT c.pqSendBufferSize - c.pqSendPointer) s.length
      modify fun c => c.copyOut (s.take amount)
      internalPutbytesLoop fuel (s.drop amount)

/-- The last lines of `internal_putbytes`: once the reply is redirected, bytes go to the socket
file. -/
def fwriteRedirected (s : List UInt8) : CommM Unit := do
  if (← get).sockfiles then
    fwriteSocketFile s
    modify fun c => { c with socketData := toInt32 (c.socketData + s.length) }

/-- `internal_putbytes`. -/
def internalPutbytes (s : List UInt8) : CommM Unit := do
  let rest ← if (← get).sockfiles then pure s else internalPutbytesLoop (s.length + 1) s
  fwriteRedirected rest

/-- `internal_flush`: the memory area is never flushed. -/
def internalFlush : CommM Unit :=
  modify fun c => if c.sockfiles then { c with pqSendPointer := 0 } else c

/-- `pq_putmessage`: type byte, length word and body, each through `internal_putbytes`. -/
def pqPutmessage (msgtype : UInt8) (body : List UInt8) : CommM Unit := do
  internalPutbytes [msgtype]
  internalPutbytes (word32 (body.length + 4))
  internalPutbytes body

end PgliteBuild
