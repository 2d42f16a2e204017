import PgliteBuild.Session.ReplyIntegrity
import PgliteBuild.SocketFile.FileEffects

/-! # A session over the socket file

`send_to_pglite` writes each request to `PGS_IN`, calls `interactive_one`, and reads and unlinks `PGS_OUT`. In a wire
session of such exchanges the replies are one stream: whatever errors are raised and whatever is notified between two
requests, the host reads all that was put on the connection, in order and once (`replies_stream`). -/

namespace PgliteBuild

open Effect Jumps

variable {σ : Type} {b : Build} {B : Backend σ} {s s' s₀ : State σ} {encoded : List UInt8}

/-! ## The host -/

/-- `send_to_pglite` with a negative port: the request is renamed to `PGS_IN`, and after the call `PGS_OUT`, if it
exists, is read and unlinked. -/
def sendToPglite (b : Build) (B : Backend σ) (fuel : ℕ) (encoded : List UInt8) : PgM σ (Option (List UInt8)) := do
  modify (interactiveWrite 0)
  modify (State.request .file encoded)
  interactiveOne b B fuel
  let buf := (← get).comm.pgsOut
  modify fun s => { s with comm := { s.comm with pgsOut := none } }
  pure buf

/-- One exchange after the other. -/
def sendAll (b : Build) (B : Backend σ) (fuel : ℕ) : List (List UInt8) → PgM σ (List (Option (List UInt8)))
  | [] => pure []
  | encoded :: rest => do
    let buf ← sendToPglite b B fuel encoded
    let bufs ← sendAll b B fuel rest
    pure (buf :: bufs)

/-- Between two exchanges of a wire session: nothing waits to be handed over, and what is notified before the next
request is looked at goes to the socket file, or nothing is. -/
structure Streaming (s : State σ) : Prop where
  repl : s.isRepl = false
  flushed : s.myProcPort = true → s.comm.socketData ≤ 0
  lock : s.myProcPort = true → ∀ content, s.comm.socketFile = some content → content = []
  aside : s.comm.sockfiles = true ∨ s.notifyInterruptPending = false

/-- The first request of a session finds this. -/
theorem streaming_boot (db : σ) {state : ℤ} (h : 0 < state) : Streaming (useWire state (State.boot db)) := by
  rw [useWire, if_pos h]
  have hport : ∀ {q : Prop}, (State.boot db).myProcPort = true → q := fun h => by cases h
  exact ⟨rfl, hport, hport, .inr rfl⟩

/-! ## The labels of an exchange -/

/-- The reply is handed over, and nothing of it is left. -/
structure HandedOut (s₀ s : State σ) : Prop extends Published s₀ s where
  repl : s.isRepl = false
  sockfiles : s.comm.sockfiles = true
  flushed : s.comm.socketData ≤ 0

/-- The hand-over resets the count, unless it wrapped around. -/
theorem Answering.handedOut {content : List UInt8} (h : Answering s₀ s) (hfile : s.comm.socketFile = some content) :
    HandedOut s₀ (s.handedOver content) := by
  have hpublished := h.handedOver hfile
  obtain ⟨-, -, hsock, -⟩ := h.reply
  rw [State.handedOver, if_pos hsock] at hpublished ⊢
  have hcount : (if 0 < s.comm.socketData then 0 else s.comm.socketData) ≤ 0 := by
    split_ifs with hpos
    · exact le_refl 0
    · exact not_lt.mp hpos
  exact ⟨hpublished, h.repl, hsock, hcount⟩

/-- What holds at a label. -/
def ExchangeLabel (s₀ : State σ) : Label → State σ → Prop
  | .returnEarly, s => HandedOut s₀ s
  | .incoming, s | .loop, s | .resumeOnError, s | .wireFlush, s => Answering s₀ s

/-- A label of an answering call is one of an exchange. -/
theorem FileLabel.exchangeLabel {l : Label} (h : FileLabel s₀ l s) (hl : l ≠ .returnEarly) : ExchangeLabel s₀ l s := by
  cases l with
  | returnEarly => exact absurd rfl hl
  | incoming | loop | resumeOnError | wireFlush => exact h

/-! ## The way in -/

/-- A call that began in `s₀` looks for its request, and all that it put is in the socket file. -/
structure Asked (s₀ : State σ) (encoded : List UInt8) (s : State σ) : Prop where
  repl : s.isRepl = false
  size : s.comm.cmaRsize = 0
  pgsIn : s.comm.pgsIn = some encoded
  reply : ∃ es, s.trace = s₀.trace ++ es ∧ s.comm.socketFile = some (es.flatMap Event.bytes) ∧
    s.comm.pgsOut = s₀.comm.pgsOut

/-- `fp` decides nothing about sends. -/
theorem SendMove.withFp (h : SendMove s s') : SendMove { s with fp := true } { s' with fp := true } := by
  cases h with
  | control hframe =>
      exact .control ⟨hframe.comm, hframe.cmaWsize, hframe.channel, hframe.isWire, hframe.isRepl, hframe.myProcPort,
        hframe.peek, rfl, hframe.armed, hframe.trace⟩
  | note he => exact .note (s := { s with fp := true }) he
  | put source ops hopen => exact .put (s := { s with fp := true }) source ops hopen
  | flush => exact .flush (s := { s with fp := true })
  | closed events hnone hclosed hside => exact .closed (s := { s with fp := true }) events hnone hclosed hside

/-- Notifications that come before the request go to the socket file, if replies go there. -/
theorem Asked.prologue (hreads : ∀ d, (B.processNotify d).reads = 0) (h : Asked s₀ encoded s)
    (haside : s.comm.sockfiles = true ∨ s.notifyInterruptPending = false) :
    wp (prologue b B) (fun _ => Asked s₀ encoded) (fun _ _ => True) s := by
  obtain ⟨hrepl, hsize, hin, es, htrace, hfile, hout⟩ := h
  rcases haside with hsock | hquiet
  · -- what is notified goes to the socket file, as the answer to the request will
    have hsends := sends_prologue (b := b) B hreads
    have hfound : Answering s₀ { s with fp := true } := ⟨hrepl, rfl, es, htrace, hsock, hfile, hout⟩
    have hkept := hsends.keeps (I := fun s => Answering s₀ { s with fp := true })
      (fun _ _ h hmove => h.sendMove hmove.withFp) hfound
    refine wp_mono (wp_and hkept ((keepsInput_of_sends hsends).recvSide s)) ?_ fun _ _ _ => trivial
    rintro _ s' ⟨⟨hrepl', -, es', htrace', -, hfile', hout'⟩, hside⟩
    have hsize' : s'.comm.cmaRsize = s.comm.cmaRsize := (congrArg Comm.cmaRsize hside :)
    have hin' : s'.comm.pgsIn = s.comm.pgsIn := (congrArg Comm.pgsIn hside :)
    exact ⟨hrepl', hsize'.trans hsize, hin'.trans hin, es', htrace', hfile', hout'⟩
  · rw [wp_of_ok (prologue_quiet fun _ _ => hquiet)]
    exact ⟨hrepl, hsize, hin, es, htrace, hfile, hout⟩

/-- A packet in the socket file does not lead to `return_early`. -/
theorem intakeFile_onward (content : List UInt8) :
    Returns (fun l => l ≠ .returnEarly) (intakeFile b B content) := by
  have hflush : ∀ m : PgM σ Unit, Returns (fun l => l ≠ .returnEarly) (do m; pure Label.wireFlush) :=
    fun m => returns_bind fun _ => returns_pure nofun
  intro s
  rw [wp_of_eq (intakeFile_eq content)]
  split_ifs
  · apply hflush
  · apply hflush
  · exact nofun

/-- The request is found and its reply begun. -/
theorem Asked.intake (h : Asked s₀ encoded s) (hne : encoded ≠ []) :
    wp (intake b B) (ExchangeLabel s₀) (fun _ _ => True) s := by
  obtain ⟨hrepl, hsize, hin, es, htrace, hfile, hout⟩ := h
  obtain ⟨x, xs, rfl⟩ := List.exists_cons_of_ne_nil hne
  rw [wp_of_eq (intake_file hsize hin)]
  have hpresented : Answering s₀ (State.presented b (x :: xs) { s with peek := some (s.comm.mem .cma 1), fp := true }) := by
    have hfill := pqRecvbufFill_socketFiles b (x :: xs) (x :: xs).length s.comm
    have hwire : ¬(s.isRepl && !s.isWire) = true := by simp [hrepl]
    rw [State.presented, if_neg hwire]
    exact ⟨hrepl, rfl, es, htrace, rfl, (congrArg SocketFiles.socketFile hfill).trans hfile,
      (congrArg SocketFiles.pgsOut hfill).trans hout⟩
  have hlabel := wp_and (intakeFile_answering (B := B) hpresented) (intakeFile_onward _ _)
  exact wp_mono hlabel (fun _ _ h => h.1.exchangeLabel h.2) fun _ _ _ => trivial

/-! ## The steps of an exchange -/

/-- Only `wire_flush` leads a wire session to `return_early`. -/
theorem block_onward {l : Label} (hflush : l ≠ .wireFlush) (hl : l ≠ .returnEarly) (hrepl : s.isRepl = false) :
    wp (block b B l) (fun next _ => next ≠ some .returnEarly) (fun _ _ => True) s := by
  cases l with
  | incoming =>
      rw [block]
      split_ifs <;> exact fun h => by cases h
  | loop =>
      rw [block, wp_bind, wp_get]
      split_ifs
      · rw [wp_bind]
        refine wp_mono (loopRound_label B s) ?_ fun _ _ h => h
        rintro l' _ (rfl | rfl | rfl) <;> exact fun h => by cases h
      · exact fun h => by cases h
  | resumeOnError =>
      rw [block, wp_bind, wp_get, if_neg (by simp [hrepl])]
      exact fun h => by cases h
  | wireFlush => exact absurd rfl hflush
  | returnEarly => exact absurd rfl hl

/-- The code at a label before `return_early` goes on with the exchange. -/
theorem exchange_block {l : Label} (hl : l ≠ .returnEarly) (h : Answering s₀ s) :
    wp (block b B l) (fun next s' => ∃ l', next = some l' ∧ ExchangeLabel s₀ l' s') (fun _ => Answering s₀) s := by
  by_cases hflush : l = .wireFlush
  · subst hflush
    rw [block, wp_bind, wireFlush, wp_bind, wp_record, wp_bind]
    refine wp_mono ((moves_finishReply B).keeps (fun _ _ h hmove => h.move hmove) (h.note rfl)) ?_ fun _ _ h => h
    intro _ s' h'
    obtain ⟨es, -, -, hfile, -⟩ := h'.reply
    -- `finishReply` still adds to the reply; the rename publishes all of it
    rw [wp_of_ok (handOver_eq hfile)]
    exact ⟨.returnEarly, rfl, h'.handedOut hfile⟩
  · refine wp_mono (wp_and (answering_block hl h) (block_onward hflush hl h.repl)) ?_ fun _ _ h => h.1
    rintro _ s' ⟨⟨l', rfl, h'⟩, honward⟩
    exact ⟨l', rfl, h'.exchangeLabel fun hreturn => honward (congrArg some hreturn)⟩

/-- What an exchange leaves for the host and for the next exchange. -/
structure Exchanged (s₀ t : State σ) : Prop extends FileAnswered s₀ t where
  repl : t.isRepl = false
  sockfiles : t.comm.sockfiles = true
  flushed : t.comm.socketData ≤ 0

/-- A step of the call goes on with the exchange, or ends it. -/
theorem exchangeLabel_step {l : Label} (h : ExchangeLabel s₀ l s) :
    wp (step b B l) (fun next s' => next.elim (Exchanged s₀ s') (ExchangeLabel s₀ · s')) (fun _ _ => True) s := by
  by_cases hl : l = .returnEarly
  · subst hl
    obtain ⟨⟨hfp, hclosed, hlock, hout⟩, hrepl, hsock, hflushed⟩ := h
    rw [wp_step, block, wp_bind, returnEarly, wp_modify, wp_pure]
    exact ⟨⟨if_pos hfp, hclosed, hlock, hout⟩, hrepl, hsock, hflushed⟩
  · have hanswering : Answering s₀ s := by
      cases l with
      | returnEarly => exact absurd rfl hl
      | incoming | loop | resumeOnError | wireFlush => exact h
    rw [wp_step]
    refine wp_mono (exchange_block hl hanswering) ?_ fun e s' h' => ?_
    · rintro _ s' ⟨l', rfl, h'⟩
      exact h'
    · split_ifs
      · -- the handler goes back to the loop or to `wire_flush`, and what it reports is in the reply
        have hkept := (sends_handler (b := b) B).keeps (fun _ _ h hmove => Answering.sendMove h hmove) h'
        refine wp_mono (wp_and hkept (handler_label B s')) ?_ fun _ _ _ => trivial
        rintro l' s'' ⟨h'', rfl | rfl⟩ <;> exact h''

/-! ## Exchanges -/

/-- The call begins with an empty socket file. -/
theorem Streaming.opened (h : Streaming s) (b : Build) (encoded : List UInt8) :
    ¬0 < (((interactiveWrite 0 s).request .file encoded).begin.connected b).comm.socketData ∧
      Asked s encoded (((interactiveWrite 0 s).request .file encoded).begin.opened b) ∧
      ((((interactiveWrite 0 s).request .file encoded).begin.opened b).comm.sockfiles = true ∨
        (((interactiveWrite 0 s).request .file encoded).begin.opened b).notifyInterruptPending = false) := by
  obtain ⟨hrepl, hflushed, hlock, haside⟩ := h
  have hopen : ∀ c : Comm, (∀ content, c.socketFile = some content → content = []) →
      c.openSocketFile.socketFile = some [] ∧ c.openSocketFile.pgsOut = c.pgsOut ∧
        c.openSocketFile.sockfiles = c.sockfiles := by
    intro c hc
    unfold Comm.openSocketFile
    cases hfile : c.socketFile with
    | none => exact ⟨rfl, rfl, rfl⟩
    | some content => exact ⟨hfile.trans (congrArg some (hc content hfile)), rfl, rfl⟩
  have hasked : ∀ t : State σ, t.isRepl = s.isRepl → t.trace = s.trace → t.comm.pgsOut = s.comm.pgsOut →
      t.comm.cmaRsize = 0 → t.comm.pgsIn = some encoded → t.comm.sockfiles = s.comm.sockfiles →
      t.notifyInterruptPending = s.notifyInterruptPending →
      (∀ content, t.comm.socketFile = some content → content = []) →
      Asked s encoded { t with comm := t.comm.openSocketFile } ∧
        (t.comm.openSocketFile.sockfiles = true ∨ t.notifyInterruptPending = false) := by
    intro t hr ht hout hsize hin hsock hnotify hfile
    obtain ⟨hnil, hpgs, hsame⟩ := hopen t.comm hfile
    refine ⟨⟨hr.trans hrepl, (openSocketFile_cmaRsize _).trans hsize, (openSocketFile_pgsIn _).trans hin, [], ?_,
      hnil, hpgs.trans hout⟩, ?_⟩
    · rw [List.append_nil]
      exact ht
    · rw [hsame, hsock, hnotify]
      exact haside
  unfold State.opened State.connected
  by_cases hport : s.myProcPort = true
  · have hbegun : ((interactiveWrite 0 s).request .file encoded).begin.myProcPort = true := hport
    rw [if_pos hbegun]
    exact ⟨not_lt.mpr (hflushed hport), hasked _ rfl rfl rfl rfl rfl rfl rfl (hlock hport)⟩
  · have hbegun : ¬((interactiveWrite 0 s).request .file encoded).begin.myProcPort = true := hport
    rw [if_neg hbegun]
    exact ⟨lt_irrefl 0, hasked _ rfl rfl rfl rfl rfl rfl rfl nofun⟩

/-- **One exchange**: the host reads all that was put since the last one. -/
theorem Streaming.exchange (hreads : ∀ d, (B.processNotify d).reads = 0) (h : Streaming s) (hne : encoded ≠ [])
    (fuel : ℕ) :
    wp (sendToPglite b B fuel encoded)
      (fun buf t => Streaming t ∧ ∃ reply, buf = some reply ∧ t.sent = s.sent ++ reply) (fun _ _ => True) s := by
  obtain ⟨hnone, hasked, haside⟩ := h.opened b encoded
  have hcall : wp (interactiveOne b B fuel) (fun _ => Exchanged s) (fun _ _ => True)
      ((interactiveWrite 0 s).request .file encoded) := by
    have hentry := interactiveOne_connected (b := b) (B := B)
      (s := (interactiveWrite 0 s).request .file encoded) (lt_irrefl (0 : ℤ)) fuel
    rw [if_neg hnone] at hentry
    -- prologue, intake, and then label after label
    rw [wp_of_eq hentry, wp_bind]
    refine wp_mono (hasked.prologue hreads haside) (fun _ s₁ h₁ => ?_) fun _ _ _ => trivial
    rw [wp_bind]
    refine wp_mono (h₁.intake hne) (fun l s₂ h₂ => ?_) fun _ _ _ => trivial
    refine follow_inv (J := ExchangeLabel s) (fun l s' h' => ?_) (fun _ _ _ => trivial) fuel h₂
    refine wp_mono (exchangeLabel_step h') (fun next s'' h'' => ?_) fun _ _ _ => trivial
    cases next <;> exact h''
  rw [sendToPglite, wp_bind, wp_modify, wp_bind, wp_modify, wp_bind]
  refine wp_mono hcall (fun _ t ht => ?_) fun _ _ _ => trivial
  obtain ⟨⟨-, hclosed, -, es, htrace, hout⟩, hrepl, hsock, hflushed⟩ := ht
  rw [wp_bind, wp_get, wp_bind, wp_modify, wp_pure]
  refine ⟨⟨hrepl, fun _ => hflushed, fun _ content hfile => ?_, .inl hsock⟩, es.flatMap Event.bytes, hout, ?_⟩
  · exact absurd (hclosed.symm.trans hfile) nofun
  · rw [State.sent, State.sent, htrace, List.flatMap_append]

/-- **In a wire session over the socket file the replies are a stream**: the host reads all that the session put on
the connection, in order and once, and every request gets its reply. -/
theorem replies_stream (hreads : ∀ d, (B.processNotify d).reads = 0) {requests : List (List UInt8)}
    (hne : ∀ encoded ∈ requests, encoded ≠ []) (h : Streaming s) {fuel : ℕ} {bufs : List (Option (List UInt8))}
    {t : State σ} (hrun : sendAll b B fuel requests s = .ok bufs t) :
    ∃ replies : List (List UInt8), bufs = replies.map some ∧ t.sent = s.sent ++ replies.flatten := by
  have hall : wp (sendAll b B fuel requests)
      (fun bufs t => ∃ replies : List (List UInt8), bufs = replies.map some ∧ t.sent = s.sent ++ replies.flatten)
      (fun _ _ => True) s := by
    clear hrun
    induction requests generalizing s with
    | nil => exact ⟨[], rfl, (List.append_nil _).symm⟩
    | cons encoded rest ih =>
        have hfirst := h.exchange hreads (b := b) (hne encoded (List.mem_cons_self ..)) fuel
        rw [sendAll, wp_bind]
        refine wp_mono hfirst ?_ fun _ _ _ => trivial
        rintro _ u ⟨hu, reply, rfl, hsent⟩
        have hrest := ih (fun p hp => hne p (List.mem_cons_of_mem _ hp)) hu
        rw [wp_bind]
        refine wp_mono hrest ?_ fun _ _ _ => trivial
        rintro _ t ⟨replies, rfl, hstream⟩
        refine ⟨reply :: replies, rfl, ?_⟩
        rw [hstream, hsent, List.flatten_cons, List.append_assoc]
  exact hall.ok hrun

/-- Two Queries to a backend that answers with type bytes. -/
theorem replies_stream_queries : ∃ (replies : List (List UInt8)) (t : State Unit),
    sendAll .emscripten .echo 9 [Msg.query.encode, Msg.query.encode] (useWire 1 (State.boot ())) =
      .ok (replies.map some) t ∧ t.sent = [] ++ replies.flatten ∧ replies.length = 2 := by
  have hread : (sendAll .emscripten .echo 9 [Msg.query.encode, Msg.query.encode]).run'
      (useWire 1 (State.boot ())) =
        some [some [81, 90, 0, 0, 0, 5, 73], some [81, 90, 0, 0, 0, 5, 73]] := by decide +kernel
  obtain ⟨t, hrun⟩ := returns_of_run' hread
  obtain ⟨replies, hbufs, hsent⟩ := replies_stream (fun _ => rfl) (by decide) (streaming_boot () (by decide)) hrun
  rw [hbufs] at hrun
  refine ⟨replies, t, hrun, hsent, ?_⟩
  have hlength := congrArg List.length hbufs
  rw [List.length_map] at hlength
  exact hlength.symm

end PgliteBuild
