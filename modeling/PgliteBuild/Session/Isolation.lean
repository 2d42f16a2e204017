import PgliteBuild.Session.Leftover

/-! # Requests are isolated

A call that returns should leave nothing of its packet behind, so that the next call reads its own packet
from byte 0. The exits of `interactive_one` that leave input are those of `RequestSafe` at the entry and of
`LoopReadsInside` at the loop; a run that keeps away from them keeps its requests apart. -/

namespace PgliteBuild

open BlockMemory Effect Framing Runs

variable {σ : Type} {b : Build} {B : Backend σ} {t : Transport} {pk : Option UInt8} {a : Bool}
  {p u : List UInt8} {s s' : State σ} {l : Label}

/-! ## Behind the loop -/

/-- A state with the same receive side and the same modes. -/
theorem Spent.of_recvSide (h : Spent p s) (hside : s'.comm.recvSide = s.comm.recvSide)
    (hwire : s'.isWire = s.isWire) (hrepl : s.isRepl = false → s'.isRepl = false) : Spent p s' := by
  have htaken : s'.comm.taken = s.comm.taken := (congrArg Comm.taken hside :)
  refine ⟨hwire.trans h.wire, hrepl h.repl, h.input.of_recvSide hside, ?_⟩
  rw [htaken]
  exact h.taken

/-- Code that only sends finds the input spent as before. -/
theorem Spent.send (h : Spent p s) (hmove : SendMove s s') : Spent p s' := by
  have hframe : s'.isWire = s.isWire ∧ s'.isRepl = s.isRepl := by
    cases hmove with
    | control hframe => exact ⟨hframe.isWire, hframe.isRepl⟩
    | note _ => exact ⟨rfl, rfl⟩
    | put source ops _ => exact ⟨rfl, rfl⟩
    | flush => exact ⟨rfl, rfl⟩
    | closed events _ _ _ => exact ⟨rfl, rfl⟩
  exact h.of_recvSide hmove.recvSide hframe.1 fun hrepl => hframe.2.trans hrepl

/-- The hand-over reads nothing. -/
theorem Spent.handOver (h : Spent p s) :
    wp (handOver : PgM σ Unit) (fun _ s' => Spent p s') (fun _ s' => Spent p s') s := by
  have hadds := (keeping_handOver (σ := σ) (P := fun _ => True) trivial).adding.spec s
  have hside := (keepsInput_handOver (σ := σ)).recvSide s
  exact wp_mono (wp_and hside hadds) (fun _ _ h' => h.of_recvSide h'.1 h'.2.wire h'.2.repl)
    fun _ _ h' => h.of_recvSide h'.1 h'.2.wire h'.2.repl

/-- The labels behind the loop leave the input alone. -/
theorem Spent.block (hreads : ∀ d, (B.processNotify d).reads = 0) (h : Spent p s) (hincoming : l ≠ .incoming)
    (hloop : l ≠ .loop) :
    wp (block b B l) (fun _ s' => Spent p s') (fun _ s' => Spent p s') s := by
  have hsend : ∀ s s' : State σ, Spent p s → SendMove s s' → Spent p s' := fun _ _ => Spent.send
  cases l with
  | incoming => exact absurd rfl hincoming
  | loop => exact absurd rfl hloop
  | resumeOnError =>
      rw [PgliteBuild.block, wp_bind, wp_get, if_neg (by simp [h.repl])]
      exact h
  | wireFlush =>
      rw [PgliteBuild.block, wp_bind, wireFlush, wp_bind, wp_record, wp_bind]
      have hnoted : Spent p { s with trace := s.trace ++ [.wireFlush] } := ⟨h.wire, h.repl, h.input, h.taken⟩
      refine wp_mono ((sends_finishReply B hreads).keeps hsend hnoted) (fun _ s₁ h₁ => ?_) fun _ _ h' => h'
      exact wp_mono h₁.handOver (fun _ _ h' => h') fun _ _ h' => h'
  | returnEarly => exact ⟨h.wire, h.repl, h.input, h.taken⟩

/-- The labels behind the loop lead no call back to it. -/
theorem Spent.step (hreads : ∀ d, (B.processNotify d).reads = 0) (h : Spent p s) (hincoming : l ≠ .incoming)
    (hloop : l ≠ .loop) :
    wp (step b B l) (fun next s' => (next ≠ some .incoming ∧ next ≠ some .loop) ∧ Spent p s')
      (fun _ s' => Spent p s') s := by
  have hsend : ∀ s s' : State σ, Spent p s → SendMove s s' → Spent p s' := fun _ _ => Spent.send
  rw [wp_step]
  refine wp_mono (wp_and (h.block hreads hincoming hloop) (late_label hincoming hloop s)) ?_ ?_
  · rintro next s' ⟨h', hlate⟩
    exact ⟨hlate, h'⟩
  · rintro e s' ⟨h', -⟩
    split_ifs
    · -- without input the handler leaves for `wire_flush`
      refine wp_mono (wp_and (handler_empty B h'.input.drained) ((sends_handler (b := b) B).keeps hsend h')) ?_ ?_
      · rintro l' s'' ⟨⟨rfl, -⟩, h''⟩
        exact ⟨⟨by simp, by simp⟩, h''⟩
      · rintro e' s'' ⟨-, h''⟩
        exact h''
    · exact h'

/-! ## Setting the handler -/

/-- The handler is set, and `sigsetjmp` is noted. -/
def State.arm (s : State σ) : State σ := { s with armed := true, trace := s.trace ++ [.sigsetjmp] }

/-- Setting the handler leaves the packet where it is. -/
theorem AtHead.arm {n : ℕ} {I I' : List UInt8 → State σ → Prop} {T T' D D' : State σ → Prop}
    {Q : List UInt8 → Prop} (h : AtHead b t n I T Q D s) (hI : ∀ u s, I u s → I' u s.arm)
    (hT : ∀ s, T s → T' s.arm) (hD : ∀ s, D s → D' s.arm) : AtHead b t n I' T' Q D' s.arm := by
  refine ⟨fun hmore => ?_, fun hdone => hD s (h.done hdone)⟩
  obtain ⟨u, hQ, hoffer⟩ := h.more hmore
  refine ⟨u, hQ, hT s hoffer.held, hoffer.feeds, fun hreading v c hsettled hreads => ?_⟩
  exact hI v _ (hoffer.reads hreading v c hsettled hreads)

/-- Arming the handler is part of the call. -/
theorem Calling.arm (h : Calling t p pk a s) : Calling t p pk true s.arm :=
  ⟨h.wire, h.repl, h.peek, rfl, h.size, h.taken⟩

/-- Arming the handler leaves the input as it is. -/
theorem Left.arm (h : Left b t p pk a u s) : Left b t p pk true u s.arm := ⟨h.toCalling.arm, h.input⟩

/-! ## The packet is taken in -/

/-- A request that the call finds as the host wrote it, and whose first byte does not send it past
`discard_input` or `recv_password_packet` with bytes left. -/
structure RequestUsed (b : Build) (B : Backend σ) (t : Transport) (p : List UInt8) (s : State σ) : Prop where
  /-- No old request is in the memory area. -/
  alone : t = .file → s.comm.cmaRsize = 0
  used : UsedUp t p.head? p
  aside : t = .cma → NotifiesAside b B p.length s

/-- A call either flushes what an earlier one left, or takes in a request that it uses up. -/
def RequestSafe (b : Build) (B : Backend σ) (t : Transport) (p : List UInt8) (s : State σ) : Prop :=
  ¬0 < (s.connected b).comm.socketData → RequestUsed b B t p s

/-- What a request leads to: the loop, with the packet at its head, or a label behind it. -/
def TakenIn (b : Build) (p : List UInt8) (l : Label) (s : State σ) : Prop :=
  l = .incoming ∧ (∃ t pk, UsedUp t pk p ∧ LeftHead b t p pk false s) ∨
    (l ≠ .incoming ∧ l ≠ .loop) ∧ Spent p s

/-- How a request ends that does not get that far. -/
def Dropped (p : List UInt8) (e : Stop) (s : State σ) : Prop := s.comm.taken <+: p ∧ (e = .error → Spent p s)

/-- In wire mode a packet in the memory area goes to the loop if it has two bytes or more. -/
theorem wp_intakeMemory (hrepl : s.isRepl = false) (n : ℕ) (post : Label → State σ → Prop)
    (exn : Stop → State σ → Prop) :
    wp (intakeMemory n) post exn s ↔ post (if n < 2 then .returnEarly else .incoming) { s with inBuf := [] } := by
  have hnot : ¬s.isRepl = true := by simp [hrepl]
  rw [intakeMemory, wp_bind, wp_modify, if_neg hnot]
  split_ifs
  · rw [wp_bind, wp_get, if_neg hnot, wp_pure]
  · rw [wp_pure]

section Intake

variable {c : Comm}

/-- Behind used up input, a message starts in the memory area. -/
theorem InputUsed.wired_cma (h : InputUsed c) (hsock : c.sockfiles = false) {n : ℕ} (hsize : c.cmaRsize = n)
    (hfile : c.socketFile.isSome = true) : Wired .cma (c.startmsgread b) := by
  rw [startmsgread_cma h.drained hsock, hsize]
  refine ⟨fun _ => .inr ?_, hfile, (fun ht => by cases ht), fun _ => h.2.1⟩
  show 1 + n ≤ 2 + n
  omega

/-- A socket file in the receive buffer is read from there. -/
theorem wired_file (packet : List UInt8) (hfile : c.socketFile.isSome = true) :
    Wired .file { pqRecvbufFill b packet packet.length c with sockfiles := true } := by
  obtain ⟨-, hfillFile, -, hshut⟩ := pqRecvbufFill_frame b packet c
  refine ⟨(fun hcma => by cases hcma), ?_, fun _ => rfl, hshut⟩
  show (pqRecvbufFill b packet packet.length c).socketFile.isSome = true
  rw [hfillFile]
  exact hfile

/-- After `pq_recvbuf_fill` the connection is fed by the packet. -/
theorem feeds_file (packet : List UInt8) :
    Feeds b .file packet.length packet { pqRecvbufFill b packet packet.length c with sockfiles := true } := by
  obtain ⟨hle, hunread, hlen, hstream, hedge, hinside, hplace⟩ := feeds_pqRecvbufFill (b := b) (c := c) packet
  exact ⟨hle, hunread, hlen, hstream, hedge, hinside, hplace⟩

/-- Behind used up input that came in a socket file, there is none. -/
theorem InputUsed.feeds_nil (h : InputUsed c) : Feeds b .file 0 [] c := by
  refine ⟨h.1.le, ?_, le_refl 0, ?_, .inl (Nat.zero_sub _), fun x _ _ => by omega, fun ht => by cases ht⟩
  · rw [Comm.unread_of_drained h.drained, h.2.2]
    rfl
  · intro st hst
    rw [h.2.2] at hst
    cases hst

end Intake

/-- A packet in the memory area is offered from its byte 0. -/
theorem Meeting.offers_cma (h : Meeting .cma p s) (hp : p ≠ []) (hmem : s.comm.mem.read ⟨.cma, 1⟩ p.length = p)
    (hwire : s'.isWire = true) (hrepl : s'.isRepl = false) (hpeek : s'.peek = some (s.comm.mem .cma 1))
    (harmed : s'.armed = false) (hcomm : s'.comm = { s.comm with sockfiles := false }) :
    Offering b .cma p.length (Left b .cma p p.head? false) (Calling .cma p p.head? false) p s' := by
  have hsize : s.comm.cmaRsize = p.length := h.size rfl
  -- the first byte of the packet
  have hhead : some (s.comm.mem .cma 1) = p.head? := by
    obtain ⟨k, hk⟩ : ∃ k, p.length = k + 1 :=
      Nat.exists_eq_succ_of_ne_zero (List.length_pos_iff.mpr hp).ne'
    rw [hk, Memory.read_succ] at hmem
    exact congrArg List.head? hmem
  refine Calling.offers ⟨hwire, hrepl, hpeek.trans hhead, harmed, fun _ => ?_, ?_⟩ ?_
  · rw [hcomm]
    exact hsize
  · rw [hcomm]
    exact h.taken
  · rw [hcomm]
    refine ⟨feeds_startmsgread_cma h.input.drained rfl h.input.2.2 hsize hmem, ?_, ?_⟩
    · exact InputUsed.wired_cma h.input rfl hsize h.file
    · exact (congrArg (· ++ p) h.untaken).trans (List.nil_append p)

/-- The intake of a packet in the memory area. -/
theorem Meeting.intake_cma (h : Meeting .cma p s) (hp : p ≠ []) (hpipe : s.pipelining = true)
    (hmem : s.comm.mem.read ⟨.cma, 1⟩ p.length = p) (hused : UsedUp .cma p.head? p) :
    wp (intake b B) (TakenIn b p) (Dropped p) s := by
  have hsize : s.comm.cmaRsize = p.length := h.size rfl
  have hpos : 0 < p.length := List.length_pos_iff.mpr hp
  have hne : s.comm.cmaRsize ≠ 0 := by omega
  rw [intake, wp_bind, wp_modify, wp_bind, wp_get, if_pos hne, wp_bind, wp_modify]
  refine (wp_intakeMemory ?_ _ _ _).mpr ?_
  · exact h.repl
  show TakenIn b p (if s.comm.cmaRsize.toNat < 2 then .returnEarly else .incoming) _
  by_cases hshort : s.comm.cmaRsize.toNat < 2
  · rw [if_pos hshort]
    exact .inr ⟨⟨by simp, by simp⟩, ⟨h.wire, h.repl, h.input, h.taken⟩⟩
  · rw [if_neg hshort]
    have hoffers : Offering b .cma p.length (Left b .cma p p.head? false) (Calling .cma p p.head? false) p { s with
        peek := some (s.comm.mem .cma 1)
        whereToSendOutput := if s.isRepl then .debug else .remote
        comm := { s.comm with sockfiles := false }
        inBuf := [] } := h.offers_cma hp hmem h.wire h.repl rfl h.armed rfl
    exact .inl ⟨rfl, .cma, p.head?, hused, hoffers.atHead (fun _ => rfl) hpipe⟩

/-- With nothing to read, whatever the memory area holds, the loop finds the end of its input. -/
theorem Meeting.takenIn_nil (h : Meeting .file [] s) (hsize : s.comm.cmaRsize = 0) (hpipe : s.pipelining = true)
    (hbyte : s.comm.mem .cma 1 ≠ 0) : TakenIn b [] .incoming { s with
      peek := some (s.comm.mem .cma 1)
      fp := s.comm.pgsIn.isSome
      inBuf := [] } := by
  have hused : ∀ t, UsedUp t (some (s.comm.mem .cma 1)) [] := by
    intro t
    refine ⟨fun hzero => absurd (Option.some.inj hzero) hbyte, fun _ body v hfound => ?_⟩
    obtain ⟨-, hnil⟩ := eq_encodeBody_of_readBody hfound
    exact (List.append_eq_nil_iff.mp hnil.symm).2
  -- the sockets' buffer, or the memory area
  rcases Bool.eq_false_or_eq_true s.comm.sockfiles with hsock | hsock
  · refine .inl ⟨rfl, .file, _, hused .file, Offering.atHead ?_ (fun _ => rfl) hpipe⟩
    have hwired : Wired .file s.comm := by
      refine ⟨fun hcma => ?_, h.file, fun _ => hsock, fun _ => h.input.2.1⟩
      rw [hsock] at hcma
      cases hcma
    refine Calling.offers ⟨h.wire, h.repl, rfl, h.armed, fun ht => (by cases ht), h.taken⟩ ⟨?_, ?_, ?_⟩
    · exact h.input.feeds_nil.startmsgread (.inr hsock)
    · exact hwired.startmsgread (.inr hsock)
    · exact (congrArg (· ++ []) h.untaken)
  · refine .inl ⟨rfl, .cma, _, hused .cma, Offering.atHead ?_ (fun _ => rfl) hpipe⟩
    refine Calling.offers ⟨h.wire, h.repl, rfl, h.armed, fun _ => hsize, h.taken⟩ ⟨?_, ?_, ?_⟩
    · exact feeds_startmsgread_cma h.input.drained hsock h.input.2.2 hsize (Memory.read_zero _ _)
    · exact h.input.wired_cma hsock hsize h.file
    · exact (congrArg (· ++ []) h.untaken)

/-- The intake of a socket file. -/
theorem Meeting.intake_file (h : Meeting .file p s) (hpipe : s.pipelining = true)
    (hused : UsedUp .file p.head? p) :
    wp (intake b B) (TakenIn b p) (Dropped p) s := by
  obtain ⟨hsize, hpgs⟩ := h.presented rfl
  -- the packet is in the receive buffer
  have hoffered : ∀ s' : State σ, s'.isWire = true → s'.isRepl = false → s'.peek = p.head? → s'.armed = false →
      s'.comm = { pqRecvbufFill b p p.length s.comm with sockfiles := true } →
      Offering b .file p.length (Left b .file p p.head? false) (Calling .file p p.head? false) p s' := by
    intro s' hwire hrepl hpeek harmed hcomm
    have hfill : s'.comm.taken = [] := by
      rw [hcomm]
      exact (pqRecvbufFill_frame b p s.comm).2.2.1.trans h.untaken
    refine Calling.offers ⟨hwire, hrepl, hpeek, harmed, fun ht => (by cases ht), ?_⟩ ⟨?_, ?_, by simp [hfill]⟩
    · rw [hfill]
      exact List.nil_prefix
    · rw [hcomm]
      exact (feeds_file p).startmsgread (.inr rfl)
    · rw [hcomm]
      exact (wired_file p h.file).startmsgread (.inr rfl)
  cases p with
  | nil =>
      have hnone : s.comm.pgsIn.bind List.head? = none := by simp [hpgs]
      rw [wp_of_eq (intake_none hsize hnone)]
      by_cases hbyte : s.comm.mem .cma 1 = 0
      · rw [if_pos hbyte]
        exact .inr ⟨⟨by simp, by simp⟩, ⟨h.wire, h.repl, h.input, h.taken⟩⟩
      · rw [if_neg hbyte]
        generalize s.comm.strlenIO b.cmaEnd.toNat 1 = n
        refine (wp_intakeMemory ?_ n _ _).mpr ?_
        · exact h.repl
        split_ifs
        · exact .inr ⟨⟨by simp, by simp⟩, ⟨h.wire, h.repl, h.input, h.taken⟩⟩
        · exact h.takenIn_nil hsize hpipe hbyte
  | cons x xs =>
      have hnot : ¬(s.isRepl && !s.isWire) = true := by simp [h.repl]
      rw [wp_of_eq (PgliteBuild.intake_file hsize hpgs), wp_of_eq (intakeFile_eq _), State.presented,
        if_neg hnot]
      by_cases hzero : (x :: xs).head? = some 0
      · cases (hused.startup hzero).1
      rw [if_neg hzero]
      by_cases hpass : (x :: xs).head? = some 112
      · have C := conveyed_left (σ := σ) b .file (x :: xs) (x :: xs).head? false
        rw [if_pos hpass, wp_bind]
        refine wp_mono (Offering.startupPass C (hoffered _ h.wire h.repl rfl h.armed rfl)) ?_ ?_
        · rintro _ s' ⟨-, body, v, hfound, h'⟩
          obtain rfl := hused.password hpass body v hfound
          exact .inr ⟨⟨by simp, by simp⟩, h'.spent⟩
        · rintro e s' ⟨-, hheld, herror⟩
          refine ⟨hheld.taken, fun he => ?_⟩
          rcases herror he with ⟨-, hother⟩ | ⟨body, v, hfound, h'⟩
          · exact absurd hpass hother
          · obtain rfl := hused.password hpass body v hfound
            exact h'.spent
      · rw [if_neg hpass]
        refine .inl ⟨rfl, .file, _, hused, Offering.atHead ?_ (fun _ => rfl) hpipe⟩
        exact hoffered _ h.wire h.repl rfl h.armed rfl

/-! ## The entry of a request -/

/-- A client port is made before or after the host writes its request. -/
theorem connected_request (b : Build) (t : Transport) (p : List UInt8) (s : State σ) :
    (s.request t p).begin.connected b = ((s.connected b).request t p).begin := by
  unfold State.connected
  by_cases hport : s.myProcPort = true
  · have hport' : (s.request t p).begin.myProcPort = true := by cases t <;> exact hport
    rw [if_pos hport, if_pos hport']
  · have hport' : ¬(s.request t p).begin.myProcPort = true := by cases t <;> exact hport
    rw [if_neg hport, if_neg hport']
    cases t <;> rfl

/-- A new client port finds the input spent as before. -/
theorem Spent.connected (h : Spent p s) : Spent p (s.connected b) := by
  unfold State.connected
  split_ifs
  · exact h
  · exact ⟨h.wire, h.repl, ⟨rfl, h.input.2⟩, h.taken⟩

/-- A request meets a backend without input. -/
theorem Spent.request {q : List UInt8} (h : Spent q s) (t : Transport) (p : List UInt8) :
    Spent p (s.request t p).begin := by
  cases t <;> exact ⟨h.wire, h.repl, h.input, List.nil_prefix⟩

/-- The state in which a call looks for its packet. -/
theorem Spent.meeting {q : List UInt8} (h : Spent q s) (p : List UInt8)
    (halone : t = .file → s.comm.cmaRsize = 0) :
    Meeting t p { (s.request t p).begin with comm := (s.request t p).begin.comm.openSocketFile } := by
  have hspent := h.request t p
  obtain ⟨hside, hmem, hfile, -⟩ := openSocketFile_frame (s.request t p).begin.comm
  have htaken : (s.request t p).begin.comm.openSocketFile.taken = [] :=
    (congrArg Comm.taken hside :).trans (by cases t <;> rfl)
  have hsize : (s.request t p).begin.comm.openSocketFile.cmaRsize = (s.request t p).begin.comm.cmaRsize :=
    openSocketFile_cmaRsize _
  have hpgs : (s.request t p).begin.comm.openSocketFile.pgsIn = (s.request t p).begin.comm.pgsIn :=
    openSocketFile_pgsIn _
  refine ⟨⟨hspent.wire, hspent.repl, rfl, rfl, ?_, ?_⟩, hspent.input.of_recvSide hside, htaken, hfile, ?_⟩
  · rintro rfl
    exact hsize
  · show (s.request t p).begin.comm.openSocketFile.taken <+: p
    rw [htaken]
    exact List.nil_prefix
  · rintro rfl
    exact ⟨hsize.trans (halone rfl), hpgs⟩

/-- A new client port leaves the database alone. -/
theorem connected_db (b : Build) (s : State σ) : (s.connected b).db = s.db := by
  unfold State.connected
  split_ifs <;> rfl

/-- A client port brings no notifications. -/
theorem delivers_of_connected (h : Delivers B (s.connected b)) : Delivers B s := by
  unfold State.connected at h
  split_ifs at h <;> exact h

/-- What the host presents does not move the send buffer. -/
theorem NotifiesAside.meeting {n : ℕ} (h : NotifiesAside b B n s) :
    Delivers B { ((s.connected b).request .cma p).begin with
        comm := ((s.connected b).request .cma p).begin.comm.openSocketFile } →
      (s.connected b).whereToSendOutput = .remote →
      (B.processNotify (s.connected b).db).puts .notification = [] ∨
        ((s.connected b).request .cma p).begin.comm.openSocketFile.Aside n := by
  have haside : ∀ c : Comm, c.openSocketFile.Aside n ↔ c.Aside n := by
    intro c
    unfold Comm.openSocketFile
    split <;> exact Iff.rfl
  intro hdue hremote
  rw [connected_db]
  exact (h (delivers_of_connected hdue) hremote).imp_right (haside _).mpr

/-- **The entry of a request** takes its packet in, or leaves it alone. -/
theorem entry_request (hreads : ∀ d, (B.processNotify d).reads = 0) {q : List UInt8} (h : Spent q s)
    (hne : t = .cma → p ≠ []) (hsafe : RequestSafe b B t p s) :
    wp (entry b B) (TakenIn b p) (Dropped p) (s.request t p) := by
  have hearly : ∀ (l : Label) (s' : State σ), l ≠ .incoming → l ≠ .loop → Spent p s' → TakenIn b p l s' :=
    fun _ _ hincoming hloop h' => .inr ⟨⟨hincoming, hloop⟩, h'⟩
  rw [entry, wp_bind, wp_modify, wp_bind, wp_get]
  split_ifs
  · exact hearly _ _ (by simp) (by simp) (h.request t p)
  rw [wp_bind, wp_modify, connected_request, wp_bind, wp_get]
  have hconnected : Spent q (s.connected b) := h.connected
  have hdata : ((s.connected b).request t p).begin.comm.socketData = (s.connected b).comm.socketData := by
    cases t <;> rfl
  rw [hdata]
  split_ifs with hflush
  · exact hearly _ _ (by simp) (by simp) (hconnected.request t p)
  obtain ⟨halone, hused, haside⟩ := hsafe hflush
  have hsize : (s.connected b).comm.cmaRsize = s.comm.cmaRsize := by
    unfold State.connected
    split_ifs <;> rfl
  have hmeeting := hconnected.meeting (t := t) p fun ht => hsize.trans (halone ht)
  have hprologue := hmeeting.prologue (b := b) hreads
  rw [wp_bind, wp_modify, wp_bind]
  cases t with
  | cma =>
      obtain ⟨-, hmem, -, -⟩ := openSocketFile_frame ((s.connected b).request .cma p).begin.comm
      have hpacket :
          ((s.connected b).request .cma p).begin.comm.openSocketFile.mem.read ⟨.cma, 1⟩ p.length = p := by
        rw [hmem]
        exact Memory.read_write_self _ _ p
      have hnotes := hmeeting.prologue_packet (b := b) hreads hpacket ?_
      · refine wp_mono (wp_and hprologue hnotes) ?_ fun e s' h' => ⟨h'.1.taken, fun _ => h'.1.spent⟩
        rintro _ s' ⟨⟨hmet, hpipe⟩, hkept⟩
        exact hmet.intake_cma (hne rfl) hpipe hkept hused
      · exact (haside rfl).meeting
  | file =>
      refine wp_mono hprologue ?_ fun e s' h' => ⟨h'.taken, fun _ => h'.spent⟩
      rintro _ s' ⟨hmet, hpipe⟩
      exact hmet.intake_file hpipe hused

/-! ## Every run -/

/-- The packet presented last. -/
def lastPacket (is : List HostStep) : List UInt8 :=
  is.foldl (fun p i => match i with
    | .request _ packet => packet
    | .useWire _ | .resume | .code => p) []

/-- The last packet is that of the last request. -/
theorem lastPacket_concat (is : List HostStep) (i : HostStep) :
    lastPacket (is ++ [i]) = match i with
      | .request _ packet => packet
      | .useWire _ | .resume | .code => lastPacket is := by
  rw [lastPacket, List.foldl_append]
  cases i <;> rfl

/-- The steps of a run of wire requests: in the memory area of one byte or more, or in the socket file. -/
def WireStep : HostStep → Prop
  | .useWire state => 0 < state
  | .request t packet => t = .cma → packet ≠ []
  | .resume => False
  | .code => True

instance : DecidablePred WireStep := fun i => by cases i <;> unfold WireStep <;> infer_instance

/-- With the packet `p` presented last, a call takes bytes of `p` only, in order, and a call that is over
left no input unread. -/
def Isolated (p : List UInt8) : Config σ → Prop
  | .idle s => InputUsed s.comm ∧ s.comm.taken <+: p
  | .inside _ s | .stopped _ s => s.comm.taken <+: p

/-- A step does not take one of the ways that leave input. -/
structure LeavesNothing (b : Build) (B : Backend σ) (c : Config σ) (i : HostStep) : Prop where
  request : ∀ s t packet, c = .idle s → i = .request t packet → RequestSafe b B t packet s
  loop : ∀ s, c = .inside .loop s → i = .code → LoopReadsInside b B s ∧ CatchesErrors b B s

/-- At a label of a call with the packet `p`. -/
def LeftAt (b : Build) (p : List UInt8) (s : State σ) : Label → Prop
  | .incoming => ∃ t pk a, (a = true → b.sigsetjmp = true) ∧ UsedUp t pk p ∧ LeftHead b t p pk a s
  | .loop => ∃ t pk, UsedUp t pk p ∧ LeftHead b t p pk b.sigsetjmp s
  | .resumeOnError | .wireFlush | .returnEarly => Spent p s

/-- With the input spent nothing is left at the labels behind the loop. -/
theorem leftAt_of_spent (h : Spent p s) (hincoming : l ≠ .incoming) (hloop : l ≠ .loop) : LeftAt b p s l := by
  cases l with
  | incoming => exact absurd rfl hincoming
  | loop => exact absurd rfl hloop
  | resumeOnError | wireFlush | returnEarly => exact h

/-- What holds in a configuration. -/
def KeptApart (b : Build) (p : List UInt8) : Config σ → Prop
  | .idle s => Spent p s
  | .inside l s => LeftAt b p s l
  | .stopped _ s => s.comm.taken <+: p

/-- At the head of the loop only bytes of the packet were taken. -/
theorem leftHead_taken (h : LeftHead b t p pk a s) : s.comm.taken <+: p := by
  rcases Bool.eq_false_or_eq_true s.pipelining with hpipe | hpipe
  · obtain ⟨_, -, hoffer⟩ := h.more hpipe
    exact hoffer.held.taken
  · exact (h.done hpipe).taken

/-- In a configuration that keeps requests apart, only bytes of the last packet were taken. -/
theorem KeptApart.isolated {c : Config σ} (h : KeptApart b p c) : Isolated p c := by
  cases c with
  | idle s =>
      have hspent : Spent p s := h
      exact ⟨hspent.input, hspent.taken⟩
  | stopped e s => exact h
  | inside l s =>
      have hleft : LeftAt b p s l := h
      cases l with
      | incoming =>
          obtain ⟨t, pk, a, -, -, hhead⟩ := hleft
          exact leftHead_taken hhead
      | loop =>
          obtain ⟨t, pk, -, hhead⟩ := hleft
          exact leftHead_taken hhead
      | resumeOnError | wireFlush | returnEarly => exact Spent.taken hleft

/-- A request is kept apart. -/
theorem keptApart_entered (hreads : ∀ d, (B.processNotify d).reads = 0) {q : List UInt8} (h : Spent q s)
    (hne : t = .cma → p ≠ []) (hsafe : RequestSafe b B t p s) :
    KeptApart b p (entered b B (s.request t p)) := by
  refine entered_spec (wp_mono (entry_request hreads h hne hsafe) ?_ ?_)
  · rintro l s' (⟨rfl, t', pk, hused, hhead⟩ | ⟨⟨hincoming, hloop⟩, hspent⟩)
    · exact ⟨t', pk, false, (fun ht => by cases ht), hused, hhead⟩
    · exact leftAt_of_spent hspent hincoming hloop
  · rintro e s' ⟨htaken, herror⟩
    split_ifs with he
    · exact herror he
    · exact htaken

/-- The code at a label keeps the packet apart. -/
theorem keptApart_continued (hreads : ∀ d, (B.processNotify d).reads = 0) (h : LeftAt b p s l)
    (hloop : l = .loop → LoopReadsInside b B s ∧ CatchesErrors b B s) :
    KeptApart b p (continued b B l s) := by
  have hlate : l ≠ .incoming → l ≠ .loop → Spent p s → KeptApart b p (continued b B l s) := by
    intro hincoming hloop hspent
    refine continued_spec (wp_mono (hspent.step hreads hincoming hloop) ?_ ?_)
    · rintro (_ | l') s' ⟨⟨hincoming', hloop'⟩, h'⟩
      · exact h'
      · exact leftAt_of_spent h' (fun hl => hincoming' (congrArg some hl)) fun hl => hloop' (congrArg some hl)
    · intro e s' h'
      split_ifs
      · exact h'
      · exact h'.taken
  cases l with
  | resumeOnError | wireFlush | returnEarly => exact hlate (by simp) (by simp) h
  | incoming =>
      obtain ⟨t, pk, a, ha, hused, hhead⟩ := h
      by_cases hb : b.sigsetjmp = true
      · refine continued_spec ((wp_of_ok (step_incoming hb s)).mpr ⟨t, pk, hused, ?_⟩)
        rw [hb]
        exact hhead.arm (fun _ _ => Left.arm) (fun _ => Calling.arm) fun _ => Left.arm
      · have hunset : a = b.sigsetjmp := by
          cases a with
          | true => exact absurd (ha rfl) hb
          | false => simpa using hb
        refine continued_spec ((wp_of_ok (step_incoming_unset hb s)).mpr ⟨t, pk, hused, ?_⟩)
        rw [← hunset]
        exact hhead
  | loop =>
      obtain ⟨t, pk, hused, hhead⟩ := h
      obtain ⟨hin, hcatch⟩ := hloop rfl
      refine continued_spec (wp_mono (leftHead_step hhead hused rfl hcatch hin) ?_ ?_)
      · rintro next s' (⟨hnext | ⟨hnext, hjmp⟩, hhead'⟩ | ⟨hnext, hleft⟩)
        · subst hnext
          exact ⟨t, pk, hused, hhead'⟩
        · subst hnext
          exact ⟨t, pk, b.sigsetjmp, fun _ => hjmp, hused, hhead'⟩
        · rcases hnext with rfl | rfl
          · exact hleft.spent
          · exact hleft.spent
      · rintro e s' ⟨hheld, he⟩
        rw [if_neg he]
        exact hheld.taken

/-- One step of a run keeps requests apart. -/
theorem KeptApart.step (hreads : ∀ d, (B.processNotify d).reads = 0) {is : List HostStep} {i : HostStep}
    {c c' : Config σ} (h : KeptApart b (lastPacket is) c) (hwire : WireStep i) (hleaves : LeavesNothing b B c i)
    (hstep : Machine b B c i c') : KeptApart b (lastPacket (is ++ [i])) c' := by
  rw [lastPacket_concat]
  cases hstep with
  | useWire state =>
      have hspent : Spent (lastPacket is) _ := h
      have hpos : 0 < state := hwire
      rw [useWire, if_pos hpos]
      exact Spent.mk rfl rfl hspent.input hspent.taken
  | request t packet =>
      exact keptApart_entered hreads h hwire (hleaves.request _ t packet rfl rfl)
  | resume => exact absurd hwire id
  | code =>
      refine keptApart_continued hreads h ?_
      rintro rfl
      exact hleaves.loop _ rfl rfl

/-- **Request isolation**: in every run of wire requests none of whose steps leaves input, each call takes
bytes of its own packet only, from byte 0 on, and returns with no input unread. -/
theorem requests_isolated (b : Build) (B : Backend σ) (hreads : ∀ d, (B.processNotify d).reads = 0) (db : σ)
    {is : List HostStep} {c : Config σ} (hrun : Reaches (Machine b B) (wireBoot db) is c)
    (hwire : ∀ i ∈ is, WireStep i) (hleaves : Guarded (Machine b B) (LeavesNothing b B) (wireBoot db) is) :
    Isolated (lastPacket is) c := by
  have hinit : KeptApart b (lastPacket []) (wireBoot db) :=
    Spent.mk rfl rfl ⟨rfl, rfl, rfl⟩ List.prefix_rfl
  have hguard : Guarded (Machine b B) (fun c i => WireStep i ∧ LeavesNothing b B c i) (wireBoot db) is :=
    fun pre i hpre d hd => ⟨hwire i (hpre.subset (by simp)), hleaves pre i hpre d hd⟩
  exact (hrun.inv (I := fun is c => KeptApart b (lastPacket is) c) hinit
    (fun _ _ _ _ h hG hstep => h.step hreads hG.1 hG.2 hstep) hguard).isolated

/-! ## Two runs -/

/-- A turn that is all of its packet stays inside it. -/
theorem turnInside_of_whole (msg : Msg) (hunread : (s.comm.startmsgread b).unread = msg.encode)
    (hreads : s.reads B msg = 0) : TurnInside b B s := by
  refine ⟨fun m v hm _ => ?_, fun m w v hm hbad => ?_, fun m v hm => ?_, fun m ms v hm hlen hv => ?_⟩
  · exact (Msg.encode_append_inj (hm.symm.trans hunread)).2
  · rw [hunread] at hm
    obtain ⟨hcode, rfl⟩ := List.cons.inj hm
    obtain rfl : msg.kind = m := FrontendMsg.code_injective hcode
    have hread := readBody_encodeBody [] msg.fits msg.length_lt
    rw [List.append_nil, hbad] at hread
    cases hread
  · obtain ⟨rfl, rfl⟩ := Msg.encode_append_inj (hm.symm.trans hunread)
    rw [hreads]
    exact trivial
  · rw [encodeMsgs_cons, List.append_assoc] at hm
    obtain ⟨rfl, hrest⟩ := Msg.encode_append_inj (hm.symm.trans hunread)
    exact absurd (List.append_eq_nil_iff.mp hrest).2 hv

/-- A check that a Query is all that is read. -/
def readsQuery : Config Unit → HostStep → Bool
  | .idle s, .request t packet => decide (t = .file → s.comm.cmaRsize = 0) && packet == Msg.query.encode &&
      !s.notifyInterruptPending
  | .inside .loop s, .code =>
      !s.pipelining || (s.comm.startmsgread .emscripten).unread == Msg.query.encode
  | _, _ => true

/-- The check on a step of a run is enough for the guard. -/
theorem leavesNothing_of_readsQuery {c : Config Unit} {i : HostStep} (h : readsQuery c i = true) :
    LeavesNothing .emscripten .silent c i := by
  constructor
  · rintro s t packet rfl rfl _
    simp only [readsQuery, Bool.and_eq_true, decide_eq_true_eq, beq_iff_eq, Bool.not_eq_true'] at h
    obtain ⟨⟨halone, rfl⟩, hquiet⟩ := h
    refine ⟨halone, ⟨fun hzero => ?_, fun hpass => ?_⟩, fun _ hdue => ?_⟩
    · exact absurd hzero (by decide)
    · exact absurd hpass (by decide)
    · cases hquiet.symm.trans hdue.2.2
  · rintro s rfl rfl
    refine ⟨fun hpipe _ _ _ => ?_, .inl rfl⟩
    have hunread : (s.comm.startmsgread .emscripten).unread = Msg.query.encode := by
      simpa [readsQuery, hpipe] using h
    exact turnInside_of_whole Msg.query hunread (ite_self _)

/-- A Query over each transport. -/
def querySteps : List HostStep :=
  .request .cma Msg.query.encode :: List.replicate 6 .code ++
    .request .file Msg.query.encode :: List.replicate 6 .code

/-- Two Query packets, one in each transport, are kept apart. -/
theorem requests_isolated_query : ∃ c, Reaches (Machine .emscripten .silent) (wireBoot ()) querySteps c ∧
    Isolated (lastPacket querySteps) c := by
  have hsome : ((wireBoot ()).runs .emscripten .silent readsQuery querySteps).isSome = true := by decide +kernel
  obtain ⟨c, hc⟩ := Option.isSome_iff_exists.mp hsome
  obtain ⟨hrun, hguard⟩ := reaches_of_runs _ _ hc
  have hwire : ∀ i ∈ querySteps, WireStep i := by decide
  exact ⟨c, hrun, requests_isolated _ _ (fun _ => rfl) () hrun hwire
    (hguard.mono fun _ _ => leavesNothing_of_readsQuery)⟩

/-- A Terminate with one byte behind it. -/
def farewellSteps : List HostStep := .request .cma [88, 0, 0, 0, 4, 81] :: List.replicate 4 .code

/-- What stands behind a Terminate stays in the buffer when the call is over. -/
theorem not_isolated_farewell : (∀ i ∈ farewellSteps, WireStep i) ∧
    ∃ c, Reaches (Machine .emscripten .silent) (wireBoot ()) farewellSteps c ∧
      ¬Isolated (lastPacket farewellSteps) c := by
  refine ⟨by decide, ?_⟩
  have hleft : ((wireBoot ()).runs .emscripten .silent (fun _ _ => true) farewellSteps).map
      (fun c => match c with
        | .idle s => some (s.comm.pqRecvPointer, s.comm.pqRecvLength)
        | .inside _ _ | .stopped _ _ => none) = some (some (5, 6)) := by decide +kernel
  obtain ⟨c, hc, hbuffer⟩ := Option.map_eq_some_iff.mp hleft
  obtain ⟨hrun, -⟩ := reaches_of_runs _ _ hc
  refine ⟨c, hrun, fun hisolated => ?_⟩
  cases c with
  | inside l s => cases hbuffer
  | stopped e s => cases hbuffer
  | idle s =>
      obtain ⟨hptr, hlen⟩ := Prod.mk.inj (Option.some.inj hbuffer)
      have hused := hisolated.1.1
      rw [hptr, hlen] at hused
      cases hused

end PgliteBuild
