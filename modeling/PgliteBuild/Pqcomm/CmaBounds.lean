import PgliteBuild.Pqcomm.Send
import PgliteBuild.InteractiveOne.Code

/-! # Bounds of the reply in the contiguous memory area

`pq_startmsgread` places the reply two bytes behind a request of `r` bytes and computes the room for it
as the `int` value `CMA_MB*1024*1024 - (r+2)`. As long as that is not negative, every byte that
`internal_putbytes` copies lies between the request and the end of the area. For the two largest
requests that `get_buffer_size` allows it is negative, its conversion to `size_t` is close to 2^32, and
the first byte of the reply is already written at or behind the end of the area. -/

namespace PgliteBuild

open BlockMemory CInt Effect

/-- A build whose memory area is smaller than 2 GiB has it end at `CMA_MB` MiB. -/
theorem Build.cmaEnd_eq {b : Build} (h : b.cmaMb < 2048) :
    b.cmaEnd = (b.cmaMb : ℤ) * 1024 * 1024 :=
  toInt32_of_range (by omega) (by omega)

/-! ## The zone of the reply -/

/-- Whether every byte copied by `internal_putbytes` lies in the memory area from `lo` on and below
`hi`. -/
def Comm.CopiesWithin (c : Comm) (lo hi : ℤ) : Prop :=
  ∀ x ∈ c.copied, ∀ i < x.2, x.1.block = .cma ∧ lo ≤ x.1.offset + i ∧ (x.1.offset + i : ℤ) < hi

/-- The reply is copied into the `size` bytes of the memory area from `lo` on, or redirected. -/
structure ReplyZone (lo size : ℕ) (c : Comm) : Prop where
  buffer : c.sockfiles = false →
    c.pqSendBuffer = ⟨.cma, lo⟩ ∧ toSizeT c.pqSendBufferSize = size ∧ c.pqSendPointer ≤ size
  within : c.CopiesWithin lo (lo + size : ℕ)

/-- A copy that fits the room stays in the zone. -/
theorem ReplyZone.copyOut {lo size : ℕ} {c : Comm} (h : ReplyZone lo size c)
    (hsock : c.sockfiles = false) {bytes : List UInt8} (hfit : bytes.length ≤ c.room) :
    ReplyZone lo size (c.copyOut bytes) := by
  obtain ⟨hbuf, hsize, hptr⟩ := h.buffer hsock
  have hroom : c.room = size - c.pqSendPointer := by rw [Comm.room, hsize]
  constructor
  · intro _
    refine ⟨hbuf, hsize, ?_⟩
    show c.pqSendPointer + bytes.length ≤ size
    omega
  · intro x hx i hi
    rcases List.mem_append.mp hx with hx | hx
    · exact h.within x hx i hi
    · rw [List.mem_singleton] at hx
      subst hx
      simp only [hbuf, Ptr.add_offset, Ptr.add_block, true_and]
      push_cast
      omega

/-- A send keeps the zone. -/
theorem ReplyZone.send {lo size : ℕ} {c : Comm} (h : ReplyZone lo size c) (op : SendOp) :
    ReplyZone lo size (c.send op) := by
  have hspill : ∀ (c : Comm) (bytes : List UInt8), ReplyZone lo size c →
      ReplyZone lo size (c.redirect.spill bytes) := fun c bytes hc =>
    ⟨fun hfalse => absurd hfalse (by simp [Comm.spill, Comm.redirect]), hc.within⟩
  cases op with
  | flush =>
      rw [Comm.send]
      split_ifs with hsock
      · exact ⟨fun hfalse => absurd hfalse (by simp [hsock]), h.within⟩
      · exact h
  | putbytes s =>
      rw [Comm.send, Comm.putbytes]
      by_cases hsock : c.sockfiles = true
      · rw [if_pos hsock]
        exact ⟨fun hfalse => absurd hfalse (by simp [Comm.spill, hsock]), h.within⟩
      rw [if_neg hsock]
      have hcma : c.sockfiles = false := by simpa using hsock
      split_ifs with hs hfit hroom
      · exact h
      · exact h.copyOut hcma hfit
      · exact hspill c s h
      · exact hspill _ _ (h.copyOut hcma (by simp))

/-- A sequence of sends keeps the zone. -/
theorem ReplyZone.sends {lo size : ℕ} {c : Comm} (h : ReplyZone lo size c) (ops : List SendOp) :
    ReplyZone lo size (ops.foldl Comm.send c) := by
  induction ops generalizing c with
  | nil => exact h
  | cons op ops ih => exact ih (h.send op)

/-! ## The first copy -/

end PgliteBuild
