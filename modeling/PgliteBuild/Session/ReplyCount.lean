import PgliteBuild.InteractiveOne.Machine
import PgliteBuild.InteractiveOne.Moves
import PgliteBuild.Pqcomm.Overflow

/-! # What `SOCKET_DATA` counts over a run

`interactive_one` decides by `SOCKET_DATA` whether a call finds a reply to hand over, and `SOCKET_FILE` may
hold what an earlier call wrote. Over every run whose calls keep the count below 2^31, the two agree: between
two calls nothing is counted and the file is empty or closed, or something is counted and waits in an open file
or in the memory area. -/

namespace PgliteBuild

open CInt Effect Runs

variable {σ α : Type} {b : Build} {B : Backend σ} {s s' s₀ s₁ : State σ} {l : Label} {c c' : Config σ}
  {i : HostStep}

/-! ## Bytes put -/

/-- All that was put on the connection. -/
def State.sent (s : State σ) : List UInt8 := s.trace.flatMap Event.bytes

/-- Other events put nothing. -/
theorem sent_note {e : Event} (he : e.bytes = []) : State.sent { s with trace := s.trace ++ [e] } = s.sent := by
  rw [State.sent, List.flatMap_append, List.flatMap_singleton, he, List.append_nil]
  rfl

/-- Bytes that are put are sent behind those that were. -/
theorem sent_put (c : Comm) (source : Source) (bytes : List UInt8) :
    State.sent { s with comm := c, trace := s.trace ++ [.put source bytes] } = s.sent ++ bytes := by
  rw [State.sent, List.flatMap_append, List.flatMap_singleton]
  rfl

/-- A note puts no bytes. -/
theorem Event.bytes_of_isNote {e : Event} (he : e.isNote = true) : e.bytes = [] := by
  cases e <;> first | rfl | cases he

/-- Since the state `s₀`, what was put was counted, and only that was written to the open socket file. -/
structure Counting (s₀ s : State σ) : Prop where
  opened : s.comm.socketFile.isSome = true
  count : ∃ put, s.sent = s₀.sent ++ put ∧ s.comm.socketData = toInt32 (s₀.comm.socketData + put.length) ∧
    (put = [] → s.comm.socketFile = s₀.comm.socketFile)

/-- Code that neither puts anything nor touches the file and the count. -/
theorem Counting.same (h : Counting s₀ s) (hfile : s'.comm.socketFile = s.comm.socketFile)
    (hdata : s'.comm.socketData = s.comm.socketData) (hsent : s'.sent = s.sent) : Counting s₀ s' := by
  obtain ⟨put, hput, hcount, hnil⟩ := h.count
  exact ⟨(congrArg Option.isSome hfile).trans h.opened, put, hsent.trans hput, hdata.trans hcount,
    fun h' => hfile.trans (hnil h')⟩

/-- Code that only sends keeps the count of what it sent. -/
theorem Counting.send (h : Counting s₀ s) (hmove : SendMove s s') : Counting s₀ s' := by
  cases hmove with
  | control hframe =>
      refine h.same ?_ ?_ (congrArg (List.flatMap Event.bytes) hframe.trace)
      · rw [hframe.comm]
      · rw [hframe.comm]
  | note he => exact h.same rfl rfl (sent_note (Event.bytes_of_isNote he))
  | flush =>
      obtain ⟨put, hput, hcount, hnil⟩ := h.count
      have hdata := socketData_send hcount .flush
      rw [SendOp.bytes, List.length_nil, Int.natCast_zero, add_zero] at hdata
      have hflush : SendOp.bytes .flush = [] := rfl
      exact h.same (socketFile_send hflush) (hdata.trans hcount.symm) rfl
  | closed _ hnone _ _ =>
      have hopen := h.opened
      rw [hnone] at hopen
      cases hopen
  | put source ops hopen =>
      obtain ⟨put, hput, hcount, hnil⟩ := h.count
      refine ⟨(isSome_socketFile_sends ops).trans h.opened, put ++ ops.flatMap SendOp.bytes, ?_, ?_, ?_⟩
      · rw [sent_put, hput, List.append_assoc]
      · rw [List.length_append, Int.natCast_add, ← add_assoc]
        exact socketData_sends hcount ops
      · intro hboth
        obtain ⟨hold, hnew⟩ := List.append_eq_nil_iff.mp hboth
        exact (socketFile_sends hnew).trans (hnil hold)

/-- A step of the code keeps the count of what it sent. -/
theorem Counting.move (h : Counting s₀ s) (hmove : Move b s s') : Counting s₀ s' := by
  cases hmove with
  | send hsend => exact h.send hsend
  | call op hbytes hstep =>
      obtain ⟨_, -, hcount, -⟩ := h.count
      obtain ⟨hfile, hdata⟩ := step_counts_none h.opened hcount hbytes hstep
      exact h.same hfile (hdata.trans hcount.symm) rfl
  | negative => exact h.same (startmsgread_count b s.comm).1 (startmsgread_count b s.comm).2 rfl
  | leave hframe =>
      refine h.same ?_ ?_ (congrArg (List.flatMap Event.bytes) hframe.trace)
      · rw [hframe.comm]
      · rw [hframe.comm]

/-! ## Nothing lost between two calls -/

/-- What is in the open socket file was counted. -/
structure Filing (c : Comm) : Prop where
  opened : c.socketFile.isSome = true
  nonneg : 0 ≤ c.socketData
  small : c.socketData < 2147483648
  empty : c.socketData = 0 → c.socketFile = some []

/-- A count starts. -/
theorem Filing.counting (h : Filing s.comm) : Counting s s := by
  have hdata := toInt32_of_range (by have := h.nonneg; omega) h.small
  refine ⟨h.opened, [], (List.append_nil _).symm, ?_, fun _ => rfl⟩
  rw [List.length_nil, Int.natCast_zero, add_zero, hdata]

/-- **A count that stays below 2^31 is the number of bytes put**, and nothing is in the file without it. -/
theorem Counting.exact (h : Counting s₀ s) (hstart : Filing s₀.comm)
    (hfits : s₀.comm.socketData + s.sent.length < 2147483648 + s₀.sent.length) :
    Filing s.comm ∧ s.comm.socketData + s₀.sent.length = s₀.comm.socketData + s.sent.length := by
  obtain ⟨put, hput, hcount, hnil⟩ := h.count
  have hlen : s.sent.length = s₀.sent.length + put.length := by rw [hput, List.length_append]
  have hnonneg := hstart.nonneg
  have hdata : s.comm.socketData = s₀.comm.socketData + put.length := by
    rw [hcount]
    exact toInt32_of_range (by omega) (by omega)
  refine ⟨⟨h.opened, by omega, by omega, fun hzero => ?_⟩, by omega⟩
  have hnone : put = [] := List.length_eq_zero_iff.mp (by omega)
  rw [hnil hnone]
  exact hstart.empty (by omega)

/-- Between two calls: the socket file is closed and nothing is counted, or what is counted waits. -/
def Pending (c : Comm) : Prop :=
  c.socketFile = none ∧ c.socketData = 0 ∧ 0 ≤ c.cmaRsize ∨ Filing c

section Pending

variable {c : Comm}

/-- With an open file a pending reply is in the file. -/
theorem Pending.filing (h : Pending c) (hopen : c.socketFile.isSome = true) : Filing c := by
  rcases h with ⟨hnone, -⟩ | h
  · rw [hnone] at hopen
    cases hopen
  · exact h

/-- With nothing counted, the socket file that a call opens is empty. -/
theorem Pending.openSocketFile (h : Pending c) (hnone : ¬0 < c.socketData) :
    Filing c.openSocketFile ∧ c.openSocketFile.socketData = 0 := by
  have hdata : c.openSocketFile.socketData = c.socketData := (openSocketFile_frame c).2.2.2
  have hzero : c.socketData = 0 := by
    rcases h with ⟨-, hzero, -⟩ | hfiling
    · exact hzero
    · have hnonneg := hfiling.nonneg
      omega
  have hfile : c.openSocketFile.socketFile = some [] := by
    unfold Comm.openSocketFile
    rcases h with ⟨hclosed, -⟩ | hfiling
    · rw [hclosed]
    · rw [hfiling.empty hzero]
      exact hfiling.empty hzero
  refine ⟨⟨?_, by omega, by omega, fun _ => hfile⟩, by omega⟩
  rw [hfile]
  rfl

end Pending

/-- The host's request is not a reply. -/
theorem Pending.request (h : Pending s.comm) (t : Transport) (packet : List UInt8) :
    Pending (s.request t packet).comm := by
  rcases h with ⟨hnone, hzero, hsize⟩ | h
  · refine .inl ?_
    cases t with
    | cma => exact ⟨hnone, hzero, Int.natCast_nonneg _⟩
    | file => exact ⟨hnone, hzero, hsize⟩
  · refine .inr ?_
    cases t <;> exact ⟨h.opened, h.nonneg, h.small, h.empty⟩

/-- A new client port is not a reply. -/
theorem Pending.connected (h : Pending s.comm) (hsize : 0 ≤ s.comm.cmaRsize) : Pending (s.connected b).comm := by
  unfold State.connected
  split_ifs
  · exact h
  · exact .inl ⟨rfl, rfl, hsize⟩

/-! ## The labels of a call -/

/-- Code keeps the count of what it sent, on both ways out. -/
theorem Counting.moves {m : PgM σ α} (h : Counting s₀ s) (hm : Moves b m) :
    wp m (fun _ s' => Counting s₀ s') (fun _ s' => Counting s₀ s') s :=
  hm.keeps (fun _ _ h' hmove => h'.move hmove) h

/-- `s'` is a state in which a reply was handed over. -/
def HandedFrom (s₀ s' : State σ) : Prop :=
  ∃ s content, Counting s₀ s ∧ s.comm.socketFile = some content ∧ s' = s.handedOver content

/-- Code that goes on counts what it puts, and the hand-over comes behind the count. -/
theorem Counting.block (h : Counting s₀ s) (hl : l ≠ .returnEarly) :
    wp (block b B l) (fun next s' => (∃ l', next = some l' ∧ Counting s₀ s') ∨
        next = some .returnEarly ∧ HandedFrom s₀ s')
      (fun _ s' => Counting s₀ s') s := by
  cases l with
  | incoming =>
      rw [PgliteBuild.block]
      split_ifs
      · exact .inl ⟨.loop, rfl, h.same rfl rfl (sent_note rfl)⟩
      · exact .inl ⟨.loop, rfl, h⟩
  | loop =>
      rw [PgliteBuild.block, wp_bind, wp_get]
      split_ifs
      · rw [wp_bind]
        exact wp_mono (h.moves (moves_loopRound B)) (fun l' _ h' => .inl ⟨l', rfl, h'⟩) fun _ _ h' => h'
      · exact .inl ⟨.resumeOnError, rfl, h⟩
  | resumeOnError =>
      rw [PgliteBuild.block, wp_bind, wp_get]
      split_ifs
      · exact .inl ⟨.returnEarly, rfl, h.same rfl rfl (sent_note rfl)⟩
      · exact .inl ⟨.wireFlush, rfl, h⟩
  | wireFlush =>
      rw [PgliteBuild.block, wp_bind, wireFlush, wp_bind, wp_record, wp_bind]
      have hnoted : Counting s₀ { s with trace := s.trace ++ [.wireFlush] } := h.same rfl rfl (sent_note rfl)
      refine wp_mono (hnoted.moves (moves_finishReply B)) (fun _ s₁ h₁ => ?_) fun _ _ h' => h'
      obtain ⟨content, hfile⟩ := Option.isSome_iff_exists.mp h₁.opened
      rw [wp_of_ok (handOver_eq hfile)]
      exact .inr ⟨rfl, s₁, content, h₁, hfile, rfl⟩
  | returnEarly => exact absurd rfl hl

/-- A step of the call keeps the count, up to the hand-over of the reply. -/
theorem Counting.step (h : Counting s₀ s) (hl : l ≠ .returnEarly) :
    wp (step b B l) (fun next s' => (∃ l', next = some l' ∧ Counting s₀ s') ∨
        next = some .returnEarly ∧ HandedFrom s₀ s')
      (fun _ s' => Counting s₀ s') s := by
  rw [wp_step]
  refine wp_mono (h.block hl) (fun _ _ h' => h') fun e s' h' => ?_
  split_ifs
  · have hkept := (sends_handler (b := b) B).keeps (fun _ _ h' hmove => Counting.send h' hmove) h'
    exact wp_mono hkept (fun l' _ h'' => .inl ⟨l', rfl, h''⟩) fun _ _ h'' => h''
  · exact h'

/-- The hand-over empties the file that it publishes, or leaves an empty one open. -/
theorem Filing.handedOver (h : Filing s.comm) (content : List UInt8) :
    (s.handedOver content).comm.socketFile = none ∧ (s.handedOver content).comm.socketData = 0 ∨
      Filing (s.handedOver content).comm := by
  have hnonneg := h.nonneg
  unfold State.handedOver
  split_ifs with hsock hpos hpos
  · exact .inl ⟨rfl, rfl⟩
  · have hzero : s.comm.socketData = 0 := by omega
    exact .inl ⟨rfl, hzero⟩
  · exact .inl ⟨rfl, rfl⟩
  · exact .inr h

/-- Nothing is put by the hand-over. -/
theorem sent_handedOver (content : List UInt8) (s : State σ) : (s.handedOver content).sent = s.sent := by
  unfold State.handedOver
  split_ifs <;> first | rfl | exact sent_note rfl

/-! ## The entry of a call -/

/-- What the intake does besides reading. -/
theorem Counting.intake (h : Counting s₀ s) :
    wp (intake b B) (fun _ s' => Counting s₀ s') (fun _ s' => Counting s₀ s') s := by
  have hmemory : ∀ (n : ℕ) {s : State σ}, Counting s₀ s →
      wp (intakeMemory n : PgM σ Label) (fun _ s' => Counting s₀ s') (fun _ s' => Counting s₀ s') s := by
    intro n s h
    by_cases hrepl : s.isRepl = true
    · rw [intakeMemory, wp_bind, wp_modify, if_pos hrepl]
      split_ifs
      · rw [wp_bind, wp_get, if_pos hrepl, wp_bind, wp_record]
        exact h.same rfl rfl (sent_note rfl)
      · exact h.same rfl rfl rfl
    · rw [intakeMemory, wp_bind, wp_modify, if_neg hrepl]
      split_ifs
      · rw [wp_bind, wp_get, if_neg hrepl]
        exact h.same rfl rfl rfl
      · exact h.same rfl rfl rfl
  have hauth : ∀ {m : PgM σ Unit} {s : State σ}, Moves b m → Counting s₀ s →
      wp (do m; pure .wireFlush : PgM σ Label) (fun _ s' => Counting s₀ s') (fun _ s' => Counting s₀ s') s := by
    intro m s hm h
    rw [wp_bind]
    exact h.moves hm
  have hfile : ∀ (content : List UInt8) {s : State σ}, Counting s₀ s →
      wp (intakeFile b B content) (fun _ s' => Counting s₀ s') (fun _ s' => Counting s₀ s') s := by
    intro content s h
    have hpresented : Counting s₀ (s.presented b content) := by
      unfold State.presented
      split_ifs
      · exact h.same rfl rfl rfl
      · refine h.same ?_ ?_ rfl
        · show (pqRecvbufFill b content content.length s.comm).socketFile = s.comm.socketFile
          unfold pqRecvbufFill
          split_ifs <;> rfl
        · show (pqRecvbufFill b content content.length s.comm).socketData = s.comm.socketData
          unfold pqRecvbufFill
          split_ifs <;> rfl
    rw [wp_of_eq (intakeFile_eq content)]
    split_ifs
    · exact hauth raises_startupAuth.moves hpresented
    · exact hauth (raises_startupPass B true).moves hpresented
    · exact hpresented
  have hempty : s.comm.cmaRsize = 0 → s.comm.pgsIn.bind List.head? = none →
      wp (PgliteBuild.intake b B) (fun _ s' => Counting s₀ s') (fun _ s' => Counting s₀ s') s := by
    intro hsize hnone
    rw [wp_of_eq (intake_none hsize hnone)]
    generalize s.comm.strlenIO b.cmaEnd.toNat 1 = n
    split_ifs
    · exact h.same rfl rfl rfl
    · exact hmemory n (h.same rfl rfl rfl)
  by_cases hsize : s.comm.cmaRsize = 0
  · cases hpgs : s.comm.pgsIn with
    | none => exact hempty hsize (by rw [hpgs]; rfl)
    | some content =>
        cases content with
        | nil => exact hempty hsize (by rw [hpgs]; rfl)
        | cons x xs =>
            rw [wp_of_eq (intake_file hsize hpgs)]
            exact hfile _ (h.same rfl rfl rfl)
  · rw [PgliteBuild.intake, wp_bind, wp_modify, wp_bind, wp_get, if_pos hsize, wp_bind, wp_modify]
    exact hmemory _ (h.same rfl rfl rfl)

/-- **A call counts from its entry on** what it puts, whatever way it takes in. -/
theorem entry_counts (h : Pending s.comm) :
    ∃ s₁, Filing s₁.comm ∧ s₁.sent = s.sent ∧ s₁.comm.socketData ≤ s.comm.socketData ∧
      wp (entry b B) (fun _ s' => Counting s₁ s') (fun _ s' => Counting s₁ s') s := by
  by_cases hneg : s.begin.comm.cmaRsize < 0
  · -- a resumed call finds the file open
    have hfiling : Filing s.comm := h.resolve_left fun hnone => absurd hneg (not_lt.mpr hnone.2.2)
    refine ⟨s, hfiling, rfl, le_refl _, ?_⟩
    rw [entry, wp_bind, wp_modify, wp_bind, wp_get, if_pos hneg]
    exact hfiling.counting.same rfl rfl rfl
  have hbegin : Pending s.begin.comm := h
  have hpending : Pending (s.begin.connected b).comm := hbegin.connected (not_lt.mp hneg)
  have hconnected : (s.begin.connected b).comm.socketData ≤ s.comm.socketData ∧
      (s.begin.connected b).sent = s.sent := by
    have hnonneg : 0 ≤ s.comm.socketData := h.elim (fun hnone => hnone.2.1.ge) Filing.nonneg
    unfold State.connected
    split_ifs
    · exact ⟨le_refl _, rfl⟩
    · exact ⟨hnonneg, rfl⟩
  obtain ⟨hle, hsent⟩ := hconnected
  by_cases hflush : 0 < (s.begin.connected b).comm.socketData
  · -- what is counted is handed over
    have hfiling := hpending.resolve_left fun hnone => by omega
    refine ⟨_, hfiling, hsent, hle, ?_⟩
    rw [entry, wp_bind, wp_modify, wp_bind, wp_get, if_neg hneg, wp_bind, wp_modify, wp_bind, wp_get, if_pos hflush]
    exact hfiling.counting
  · obtain ⟨hfiling, hzero⟩ := hpending.openSocketFile hflush
    have hnonneg : 0 ≤ s.comm.socketData := h.elim (fun hnone => hnone.2.1.ge) Filing.nonneg
    have hopened : Filing (s.begin.opened b).comm := hfiling
    refine ⟨s.begin.opened b, hopened, hsent, hzero.trans_le hnonneg, ?_⟩
    rw [entry, wp_bind, wp_modify, wp_bind, wp_get, if_neg hneg, wp_bind, wp_modify, wp_bind, wp_get, if_neg hflush,
      wp_bind, wp_modify, wp_bind]
    exact wp_mono (hopened.counting.moves (moves_prologue B)) (fun _ _ h' => h'.intake) fun _ _ h' => h'

/-! ## Every run -/

/-- What is counted stays below 2^31. -/
def CountFits (b : Build) (B : Backend σ) (c : Config σ) (i : HostStep) : Prop :=
  ∀ c', Machine b B c i c' → c.state.comm.socketData + c'.state.sent.length < 2147483648 + c.state.sent.length

/-- What holds in a configuration. -/
def Counted : Config σ → Prop
  | .idle s => Pending s.comm
  | .inside .returnEarly s => s.comm.socketFile = none ∧ s.comm.socketData = 0 ∨ Filing s.comm
  | .inside .incoming s | .inside .loop s | .inside .resumeOnError s | .inside .wireFlush s => Filing s.comm
  | .stopped _ _ => True

/-- A reply in the file is counted at every label. -/
theorem Filing.counted (h : Filing s.comm) (l : Label) : Counted (.inside l s) := by
  cases l with
  | returnEarly => exact .inr h
  | incoming | loop | resumeOnError | wireFlush => exact h

/-- A call that starts is counted. -/
theorem counted_entered (h : Pending s.comm)
    (hfits : s.comm.socketData + (entered b B s).state.sent.length < 2147483648 + s.sent.length) :
    Counted (entered b B s) := by
  obtain ⟨s₁, hfiling, hsent, hle, hcall⟩ := entry_counts (b := b) (B := B) h
  have hexact : ∀ s', Counting s₁ s' → s.comm.socketData + s'.sent.length < 2147483648 + s.sent.length →
      Filing s'.comm := by
    intro s' hcount hfits
    rw [← hsent] at hfits
    exact (hcount.exact hfiling (by omega)).1
  refine entered_spec (P := fun c => s.comm.socketData + c.state.sent.length < 2147483648 + s.sent.length →
    Counted c) ?_ hfits
  refine wp_mono hcall (fun l s' h' hfits => (hexact s' h' hfits).counted l) fun e s' h' => ?_
  split_ifs
  · exact fun hfits => .inr (hexact s' h' hfits)
  · exact fun _ => trivial

/-- The code at a label keeps the count. -/
theorem counted_continued (h : Counted (.inside l s))
    (hfits : s.comm.socketData + (continued b B l s).state.sent.length < 2147483648 + s.sent.length) :
    Counted (continued b B l s) := by
  by_cases hl : l = .returnEarly
  · subst hl
    show Pending s.returned.comm
    rcases h with ⟨hnone, hzero⟩ | hfiling
    · exact .inl ⟨hnone, hzero, le_refl _⟩
    · exact .inr ⟨hfiling.opened, hfiling.nonneg, hfiling.small, hfiling.empty⟩
  have hfiling : Filing s.comm := by
    cases l with
    | returnEarly => exact absurd rfl hl
    | incoming | loop | resumeOnError | wireFlush => exact h
  refine continued_spec (P := fun c => s.comm.socketData + c.state.sent.length < 2147483648 + s.sent.length →
    Counted c) ?_ hfits
  refine wp_mono (hfiling.counting.step hl) ?_ fun e s' h' => ?_
  · rintro next s' (⟨l', rfl, h'⟩ | ⟨rfl, s₁, content, h₁, -, rfl⟩) hfits
    · exact (h'.exact hfiling hfits).1.counted l'
    · rw [Option.elim_some, Config.state, sent_handedOver] at hfits
      exact (h₁.exact hfiling hfits).1.handedOver content
  · split_ifs
    · exact fun hfits => .inr (h'.exact hfiling hfits).1
    · exact fun _ => trivial

/-- One step of a run keeps the count, if the host resumes only behind a call that left the file open. -/
theorem Counted.step (h : Counted c) (hfits : CountFits b B c i)
    (hresume : ∀ s, c = .idle s → i = .resume → s.comm.socketFile.isSome = true) (hstep : Machine b B c i c') :
    Counted c' := by
  cases hstep with
  | useWire state =>
      show Pending _
      unfold useWire
      split_ifs <;> exact h
  | request t packet =>
      have hpending : Pending _ := h
      have hcalled := hfits _ (.request t packet)
      refine counted_entered (hpending.request t packet) ?_
      cases t <;> exact hcalled
  | resume =>
      have hpending : Pending _ := h
      have hf := hpending.filing (hresume _ rfl rfl)
      exact counted_entered (.inr ⟨hf.opened, hf.nonneg, hf.small, hf.empty⟩) (hfits _ .resume)
  | code => exact counted_continued h (hfits _ .code)

/-- **In every run that keeps the count below 2^31, `SOCKET_DATA` and `SOCKET_FILE` agree.** -/
theorem counted_of_run {db : σ} {is : List HostStep}
    (hrun : Reaches (Machine b B) (.idle (State.boot db)) is c)
    (hguard : Guarded (Machine b B) (fun c i => CountFits b B c i ∧
      ∀ s, c = .idle s → i = .resume → s.comm.socketFile.isSome = true) (.idle (State.boot db)) is) :
    Counted c := by
  have hinit : Counted (.idle (State.boot db)) := Or.inl ⟨rfl, rfl, le_refl _⟩
  exact hrun.inv (I := fun _ c => Counted c) hinit (fun _ _ _ _ h hG hstep => h.step hG.1 hG.2 hstep) hguard

end PgliteBuild
