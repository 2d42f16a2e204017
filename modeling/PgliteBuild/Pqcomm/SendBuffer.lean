import PgliteBuild.Foundation.Runs
import PgliteBuild.Pqcomm.Receive

/-! # The send buffer between transports

A message that starts with all input consumed points `PqSendBuffer` at the memory area, after saving the
old pointer, or restores the saved pointer for a socket file. There is one saved pointer, so two starts
in the memory area in a row save an address of the area itself. The send buffer of `pq_init` is restored
at every socket-file start exactly when no such pair comes right before one. -/

namespace PgliteBuild

open BlockMemory Effect Runs

/-! ## Starts -/

/-- What decides where `pq_startmsgread` points the buffers. -/
structure Start where
  sockfiles : Bool
  cmaRsize : ℤ
  deriving DecidableEq, Repr

/-- `pq_startmsgread` with all input consumed. Only the send pointers are left from the start before. -/
def StartsWith (b : Build) (c : Comm) (i : Start) (c' : Comm) : Prop :=
  ∃ c₀ : Comm, c₀.pqSendBuffer = c.pqSendBuffer ∧ c₀.pqSendBufferSave = c.pqSendBufferSave ∧
    c₀.pqBufferRemainingData = 0 ∧ c₀.sockfiles = i.sockfiles ∧ c₀.cmaRsize = i.cmaRsize ∧
    pqStartmsgread b c₀ = .ok () c'

/-- The send pointers as `pq_init` leaves them. -/
structure SendInit (c : Comm) : Prop where
  buffer : c.pqSendBuffer = ⟨.sendAlloc, 0⟩
  save : c.pqSendBufferSave = none

/-- `PqSendBuffer` and `PqSendBuffer_save`. -/
abbrev SendPtrs := Ptr Block × Option (Ptr Block)

/-- What a start does to the send pointers. -/
def Start.next (p : SendPtrs) (i : Start) : SendPtrs :=
  if i.sockfiles then (p.2.getD p.1, p.2) else (⟨.cma, 2 + i.cmaRsize.toNat⟩, some p.1)

variable {b : Build} {c c' : Comm} {i : Start} {is : List Start}

/-- A start moves the pointers of the send buffer as `Start.next` says. -/
theorem StartsWith.sendPtrs (h : StartsWith b c i c') :
    (c'.pqSendBuffer, c'.pqSendBufferSave) = i.next (c.pqSendBuffer, c.pqSendBufferSave) := by
  obtain ⟨c₀, hbuf, hsave, hdrained, hsock, hsize, hstart⟩ := h
  rcases Bool.eq_false_or_eq_true c₀.pqCommReadingMsg with hreading | hreading
  · rw [pqStartmsgread_reading hreading] at hstart
    cases hstart
  rw [pqStartmsgread_eq hreading] at hstart
  cases hstart
  rw [Start.next, ← hbuf, ← hsave, ← hsock, ← hsize]
  split_ifs with hfile
  · rw [startmsgread_file hdrained hfile]
  · rw [startmsgread_cma hdrained (by simpa using hfile)]

/-- There is such a start after every state. -/
theorem startsWith_exists (b : Build) (c : Comm) (i : Start) : ∃ c', StartsWith b c i c' := by
  obtain ⟨c₀, hc₀⟩ : ∃ c₀ : Comm, c₀ = { c with
      pqRecvPointer := 0
      pqRecvLength := 0
      pqCommReadingMsg := false
      sockfiles := i.sockfiles
      cmaRsize := i.cmaRsize } := ⟨_, rfl⟩
  refine ⟨c₀.startmsgread b, c₀, ?_⟩
  have hstart : pqStartmsgread b c₀ = .ok () (c₀.startmsgread b) := pqStartmsgread_eq (by rw [hc₀])
  subst hc₀
  exact ⟨rfl, rfl, rfl, rfl, rfl, hstart⟩

/-- Every sequence of starts can be run. -/
theorem reaches_startsWith (b : Build) (c : Comm) (is : List Start) :
    ∃ c', Reaches (StartsWith b) c is c' := by
  induction is using List.reverseRecOn with
  | nil => exact ⟨c, .nil⟩
  | append_singleton is i ih =>
      obtain ⟨c₁, hrun⟩ := ih
      obtain ⟨c₂, hstep⟩ := startsWith_exists b c₁ i
      exact ⟨c₂, hrun.snoc hstep⟩

/-- The send pointers after a run depend on its starts only. -/
theorem sendPtrs_of_reaches (hinit : SendInit c) (h : Reaches (StartsWith b) c is c') :
    (c'.pqSendBuffer, c'.pqSendBufferSave) = is.foldl Start.next (⟨.sendAlloc, 0⟩, none) := by
  refine Reaches.inv_of_step (I := fun is c' =>
    (c'.pqSendBuffer, c'.pqSendBufferSave) = is.foldl Start.next (⟨.sendAlloc, 0⟩, none)) ?_ ?_ h
  · rw [hinit.buffer, hinit.save]
    rfl
  · intro is i t t' hptrs hstep
    rw [hstep.sendPtrs, hptrs, List.foldl_append]
    rfl

/-! ## The pattern that loses the buffer -/

/-- Two starts in the memory area, and then one for a socket file. -/
def LosesBuffer (is : List Start) : Prop :=
  ∃ x y z, [x, y, z] <:+: is ∧ x.sockfiles = false ∧ y.sockfiles = false ∧ z.sockfiles = true

/-- A buffer that is lost stays lost. -/
theorem LosesBuffer.mono {js : List Start} (h : LosesBuffer is) (hjs : is <+: js) : LosesBuffer js := by
  obtain ⟨x, y, z, hinfix, hxyz⟩ := h
  exact ⟨x, y, z, hinfix.trans hjs.isInfix, hxyz⟩

/-- The last start, if any, was for a socket file. -/
def EndsInFile (is : List Start) : Prop := ∀ i ∈ is.getLast?, i.sockfiles = true

/-- What the send pointers are as long as the buffer is not lost: after a socket-file start they are
those of `pq_init`, and the first start in the memory area after it saves them. -/
structure Kept (is : List Start) (p : SendPtrs) : Prop where
  file : EndsInFile is → p = (⟨.sendAlloc, 0⟩, none) ∨ p = (⟨.sendAlloc, 0⟩, some ⟨.sendAlloc, 0⟩)
  area : ∀ js i, is = js ++ [i] → i.sockfiles = false → EndsInFile js → p.2 = some ⟨.sendAlloc, 0⟩

/-- A start for a socket file keeps the buffer if one start at most was in the memory area before it. -/
theorem Kept.next_file {p : SendPtrs} (h : Kept is p) (hsock : i.sockfiles = true)
    (hkeep : ¬LosesBuffer (is ++ [i])) :
    i.next p = (⟨.sendAlloc, 0⟩, none) ∨ i.next p = (⟨.sendAlloc, 0⟩, some ⟨.sendAlloc, 0⟩) := by
  rw [Start.next, if_pos hsock]
  by_cases hends : EndsInFile is
  · rcases h.file hends with rfl | rfl
    · exact Or.inl rfl
    · exact Or.inr rfl
  -- the start before was in the memory area, and the one before that was not
  obtain ⟨y, hlast, hy⟩ : ∃ y, is.getLast? = some y ∧ y.sockfiles = false := by
    simpa [EndsInFile] using hends
  obtain ⟨js, rfl⟩ := List.getLast?_eq_some_iff.mp hlast
  have hfile : EndsInFile js := by
    intro x hx
    by_contra hx'
    obtain ⟨ks, rfl⟩ := List.getLast?_eq_some_iff.mp (Option.mem_def.mp hx)
    exact hkeep ⟨x, y, i, ⟨ks, [], by simp⟩, by simpa using hx', hy, hsock⟩
  rw [h.area js y rfl hy hfile]
  exact Or.inr rfl

/-- Starts that do not lose the buffer keep it. -/
theorem kept_foldl (hkeep : ¬LosesBuffer is) :
    Kept is (is.foldl Start.next (⟨.sendAlloc, 0⟩, none)) := by
  induction is using List.reverseRecOn with
  | nil =>
      refine ⟨fun _ => Or.inl rfl, ?_⟩
      intro js i heq
      simp at heq
  | append_singleton is i ih =>
      have hkept := ih fun hloses => hkeep (hloses.mono (List.prefix_append _ _))
      rw [List.foldl_append, List.foldl_cons, List.foldl_nil]
      generalize is.foldl Start.next (⟨.sendAlloc, 0⟩, none) = p at hkept
      constructor
      · intro hends
        exact hkept.next_file (hends i (by simp)) hkeep
      · intro js i' heq harea hends
        obtain ⟨rfl, hi⟩ := List.append_inj' heq rfl
        obtain rfl : i = i' := by simpa using hi
        rw [Start.next, if_neg (by simp [harea])]
        rcases hkept.file hends with rfl | rfl <;> rfl

/-- After the pattern the send buffer is in the memory area. -/
theorem foldl_losing (is : List Start) {x y z : Start} (hx : x.sockfiles = false)
    (hy : y.sockfiles = false) (hz : z.sockfiles = true) (p : SendPtrs) :
    ((is ++ [x, y, z]).foldl Start.next p).1 = ⟨.cma, 2 + x.cmaRsize.toNat⟩ := by
  rw [List.foldl_append]
  simp [Start.next, hx, hy, hz]

/-! ## Every sequence of starts -/

/-- Whenever a start takes the socket-file branch and sets the size of `pq_init`'s buffer, the send
buffer is that buffer. -/
def SendBufferRestored (b : Build) (c : Comm) (is : List Start) : Prop :=
  ∀ pre i c', pre ++ [i] <+: is → Reaches (StartsWith b) c (pre ++ [i]) c' → i.sockfiles = true →
    c'.pqSendBufferSize = b.sendBufferSize → c'.pqSendBuffer = ⟨.sendAlloc, 0⟩

/-- A start for a socket file sets the size. -/
theorem StartsWith.size_file (h : StartsWith b c i c') (hsock : i.sockfiles = true) :
    c'.pqSendBufferSize = b.sendBufferSize := by
  obtain ⟨c₀, -, -, hdrained, hsock₀, -, hstart⟩ := h
  rcases Bool.eq_false_or_eq_true c₀.pqCommReadingMsg with hreading | hreading
  · rw [pqStartmsgread_reading hreading] at hstart
    cases hstart
  rw [pqStartmsgread_eq hreading] at hstart
  cases hstart
  rw [startmsgread_file hdrained (hsock₀.trans hsock)]

/-- **The send buffer is restored** at every socket-file start exactly when no two starts in the memory
area in a row come right before one. -/
theorem sendBuffer_restored_iff (hinit : SendInit c) (is : List Start) :
    SendBufferRestored b c is ↔ ¬LosesBuffer is := by
  constructor
  · rintro hrestored ⟨x, y, z, ⟨pre, post, rfl⟩, hx, hy, hz⟩
    have hsplit : pre ++ [x, y, z] = pre ++ [x, y] ++ [z] := by simp
    obtain ⟨c₁, hrun⟩ := reaches_startsWith b c (pre ++ [x, y])
    obtain ⟨c₂, hstep⟩ := startsWith_exists b c₁ z
    have hprefix : pre ++ [x, y] ++ [z] <+: pre ++ [x, y, z] ++ post :=
      hsplit ▸ List.prefix_append _ _
    have hbuffer := hrestored _ z c₂ hprefix (hrun.snoc hstep) hz (hstep.size_file hz)
    have hptrs := congrArg Prod.fst (sendPtrs_of_reaches hinit (hrun.snoc hstep))
    rw [← hsplit, foldl_losing pre hx hy hz] at hptrs
    cases hbuffer.symm.trans hptrs
  · intro hkeep pre i c' hprefix hrun hsock _
    have hptrs := sendPtrs_of_reaches hinit hrun
    have hkept := kept_foldl fun hloses => hkeep (LosesBuffer.mono hloses hprefix)
    have hends : EndsInFile (pre ++ [i]) := by
      intro j hj
      obtain rfl : i = j := by simpa using hj
      exact hsock
    rcases hkept.file hends with hp | hp
    · exact congrArg Prod.fst (hptrs.trans hp)
    · exact congrArg Prod.fst (hptrs.trans hp)

/-- The connection after `pq_init`. -/
def Comm.initialised (b : Build) : Comm :=
  { Comm.boot with pqSendBufferSize := b.sendBufferSize }

/-- After `pq_init` the send buffer is the one that was allocated. -/
theorem sendInit_initialised (b : Build) : SendInit (Comm.initialised b) := ⟨rfl, rfl⟩

/-- Two requests in the memory area, of 5 and 7 bytes, and then a request in a socket file: its send
buffer is the result area of the first request. -/
theorem sendBuffer_in_area :
    (∃ c', Reaches (StartsWith .emscripten) (Comm.initialised .emscripten)
        [⟨false, 5⟩, ⟨false, 7⟩, ⟨true, 0⟩] c' ∧
      c'.pqSendBufferSize = 8192 ∧ c'.pqSendBuffer = ⟨.cma, 7⟩) ∧
    ¬SendBufferRestored .emscripten (Comm.initialised .emscripten)
      [⟨false, 5⟩, ⟨false, 7⟩, ⟨true, 0⟩] := by
  obtain ⟨c₁, hrun⟩ := reaches_startsWith .emscripten (Comm.initialised .emscripten)
    [⟨false, 5⟩, ⟨false, 7⟩]
  obtain ⟨c₂, hstep⟩ := startsWith_exists .emscripten c₁ ⟨true, 0⟩
  have hptrs := sendPtrs_of_reaches (sendInit_initialised .emscripten) (hrun.snoc hstep)
  have hsize := hstep.size_file rfl
  have hbuffer : c₂.pqSendBuffer = ⟨.cma, 7⟩ := congrArg Prod.fst hptrs
  refine ⟨⟨c₂, hrun.snoc hstep, hsize, hbuffer⟩, fun hrestored => ?_⟩
  have hinit := hrestored [⟨false, 5⟩, ⟨false, 7⟩] ⟨true, 0⟩ c₂ List.prefix_rfl (hrun.snoc hstep) rfl hsize
  cases hinit.symm.trans hbuffer

/-- `sendBuffer_restored_iff` for requests that alternate between the transports. -/
theorem sendBuffer_restored_alternating :
    SendBufferRestored .emscripten (Comm.initialised .emscripten)
        [⟨false, 5⟩, ⟨true, 0⟩, ⟨false, 7⟩, ⟨true, 0⟩] ↔
      ¬LosesBuffer [⟨false, 5⟩, ⟨true, 0⟩, ⟨false, 7⟩, ⟨true, 0⟩] :=
  sendBuffer_restored_iff (sendInit_initialised .emscripten) _

end PgliteBuild
