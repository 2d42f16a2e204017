import PgliteBuild.InteractiveOne.ArmedHandler
import PgliteBuild.InteractiveOne.Events
import PgliteBuild.InteractiveOne.Machine
import PgliteBuild.Session.Transports

/-! # The contract of the repl

A statement in the memory area should be dispatched once as a Query and answered by one prompt, with
nothing put on the connection. The repl shares its way in, its error handler and its flags with the wire:
an unsent reply is flushed instead, pending notifications are sent to the wire, skip mode drops the
statement, and the error handler leaves for `wire_flush`, past the prompt, or with wire input left unread
it goes back to `incoming`, where a `pipelining` that the long jump made true runs the statement again.
`contract_iff` says of every state that there is no other way to break the contract. -/

namespace PgliteBuild

open BlockMemory Effect Jumps Runs

variable {σ : Type} {b : Build} {B : Backend σ} {s s' : State σ} {l : Label}

/-! ## The contract -/

/-- A statement of two bytes or more, none of them NUL. -/
structure Statement where
  sql : List UInt8
  long : 2 ≤ sql.length
  nulFree : 0 ∉ sql

/-- What the repl owes to a statement. A first call sets `SOCKET_DATA` up with the connection. -/
def KeepsContract (b : Build) (B : Backend σ) (stmt : Statement) (s : State σ) : Prop :=
  ∃ s' new, Calls b B (s.request .cma stmt.sql) (.ok () s') ∧ s'.trace = s.trace ++ new ∧
    dispatches new = [(.query, stmt.sql ++ [0])] ∧ new.count .prompt = 1 ∧
    (∀ source bytes, .put source bytes ∉ new) ∧
    s'.comm.socketData = (s.connected b).comm.socketData ∧ s'.cmaWsize = 0 ∧ s'.channel = s.channel

/-- Notifications are delivered before the request is looked at. -/
def Delivers (B : Backend σ) (s : State σ) : Prop :=
  s.sendReadyForQuery = true ∧ B.blockState s.db = .idle ∧ s.notifyInterruptPending = true

instance (B : Backend σ) (s : State σ) : Decidable (Delivers B s) := inferInstanceAs (Decidable (_ ∧ _ ∧ _))

/-- The session that a statement finds. -/
def State.delivered (B : Backend σ) (s : State σ) : σ :=
  if Delivers B s then (B.processNotify s.db).next else s.db

/-- A state in which notifications may have been delivered, but nothing was put. -/
def State.ready (n : ℕ) (d : σ) (pending : Bool) (new : List Event) (s : State σ) : State σ :=
  { s with
    comm := { s.comm with pqSendPointer := n }
    db := d
    notifyInterruptPending := pending
    sendReadyForQuery := false
    trace := s.trace ++ new }

/-- Flushing moves nothing but the send pointer. -/
theorem runActions_flush (source : Source) {as : List Action} (has : ∀ a ∈ as, a = .flush) (s : State σ) :
    ∃ n, runActions b source as s = .ok () { s with comm := { s.comm with pqSendPointer := n } } := by
  induction as generalizing s with
  | nil => exact ⟨s.comm.pqSendPointer, rfl⟩
  | cons a as ih =>
      obtain rfl := has a List.mem_cons_self
      have hflush : ∃ n, runAction b source .flush s =
          .ok () { s with comm := { s.comm with pqSendPointer := n } } := by
        by_cases hsock : s.comm.sockfiles = true
        · refine ⟨0, ?_⟩
          rw [runAction, liftComm, internalFlush, run_modify, if_pos hsock]
        · refine ⟨s.comm.pqSendPointer, ?_⟩
          rw [runAction, liftComm, internalFlush, run_modify, if_neg hsock]
      obtain ⟨n, hn⟩ := hflush
      obtain ⟨n', hn'⟩ := ih (fun a' ha' => has a' (List.mem_cons_of_mem _ ha'))
        { s with comm := { s.comm with pqSendPointer := n } }
      refine ⟨n', ?_⟩
      rw [runActions, run_bind_ok hn, hn']

/-- A response that neither puts nor reads only flushes. -/
theorem eq_flush_of_puts {r : Response σ} {source : Source} (hreads : r.reads = 0)
    (hputs : r.puts source = []) : ∀ a ∈ r.actions, a = .flush := by
  intro a ha
  cases a with
  | flush => rfl
  | putbytes bytes =>
      have hnone := List.filterMap_eq_nil_iff.mp hputs _ ha
      cases hnone
  | copyRead => exact absurd ha (List.count_eq_zero.mp hreads)

/-- What a response does behind its actions. -/
theorem respond_eq {r : Response σ} {source : Source}
    (hactions : (if s.whereToSendOutput = .remote then runActions b source r.actions else pure ()) s =
      .ok () s') :
    respond b source r s = match r.error with
      | none => .ok () { s' with
          db := r.next, notifyInterruptPending := s'.notifyInterruptPending || r.notify }
      | some e => .error .error { s' with
          db := r.next
          notifyInterruptPending := s'.notifyInterruptPending || r.notify
          errordata := some ⟨e.errcode, e.errmsg⟩ } := by
  have hrest : settle r s' = match r.error with
      | none => .ok () { s' with
          db := r.next, notifyInterruptPending := s'.notifyInterruptPending || r.notify }
      | some e => .error .error { s' with
          db := r.next
          notifyInterruptPending := s'.notifyInterruptPending || r.notify
          errordata := some ⟨e.errcode, e.errmsg⟩ } := by
    rw [settle, run_bind_ok (run_modify _ _)]
    cases r.error with
    | none => rfl
    | some e => rfl
  rw [respond, run_bind_ok (run_get _)]
  by_cases hremote : s.whereToSendOutput = .remote
  · rw [if_pos hremote] at hactions ⊢
    rw [run_bind_ok hactions]
    exact hrest
  · rw [if_neg hremote] at hactions ⊢
    cases hactions
    exact hrest

section Prompt

variable (hwire : s.isWire = false) (hrepl : s.isRepl = true)

include hwire hrepl

end Prompt

/-- At `incoming` the handler is set. -/
theorem step_incoming (hb : b.sigsetjmp = true) (s : State σ) : step b B .incoming s =
    .ok (some .loop) { s with armed := true, trace := s.trace ++ [.sigsetjmp] } := by
  rw [step, block, if_pos hb]
  rfl

/-- Without `sigsetjmp` the loop follows at once. -/
theorem step_incoming_unset (hb : ¬b.sigsetjmp = true) (s : State σ) : step b B .incoming s = .ok (some .loop) s := by
  rw [step, block, if_neg hb]
  rfl

/-- Behind the statement comes the prompt. -/
theorem ends_prompt (hrepl : s.isRepl = true) (hpipe : s.pipelining = false) :
    Ends (step b B) .loop s (.ok () (State.returned { s with trace := s.trace ++ [.prompt] })) := by
  have hleave : step b B .loop s = .ok (some .resumeOnError) s := by
    rw [step, block, run_bind_ok (run_get _), if_neg (by simp [hpipe])]
    rfl
  have hprompt : step b B .resumeOnError s =
      .ok (some .returnEarly) { s with trace := s.trace ++ [.prompt] } := by
    rw [step, block, run_bind_ok (run_get _), if_pos hrepl]
    rfl
  exact .jump hleave (.jump hprompt (ends_returnEarly _))

/-! ## The handler -/

/-- The state to which a long jump leads. -/
def State.jumped (b : Build) (s : State σ) : State σ :=
  { s with pipelining := s.pipelining || b.pipeliningRestored }

/-- Neither a dispatch nor a prompt. -/
def Aside (e : Event) : Prop := e ≠ .prompt ∧ ∀ m body, e ≠ .dispatch m body

/-- Past `wire_flush`, with no input for the handler to go back to. -/
structure Leaving (es : List Event) (l : Label) (s : State σ) : Prop where
  label : l = .wireFlush ∨ l = .returnEarly
  input : s.armed = true → s.comm.pqBufferRemainingData = 0
  trace : ∃ new, s.trace = es ++ new ∧ ∀ e ∈ new, Aside e

section Leaving

variable {es : List Event} (hreads : ∀ d, (B.processNotify d).reads = 0)

/-- Nothing that is put, noted or renamed is a dispatch or a prompt. -/
theorem aside_events : (∀ op, Aside (.raising op)) ∧ (∀ source bytes, Aside (.put source bytes)) ∧
    Aside .wireFlush ∧ Aside .rename := by
  refine ⟨fun _ => ⟨?_, ?_⟩, fun _ _ => ⟨?_, ?_⟩, ⟨?_, ?_⟩, ⟨?_, ?_⟩⟩ <;> simp

include hreads

/-- **Step lemma**: the code past `wire_flush` neither dispatches nor prompts. -/
theorem Leaving.step (h : Leaving es l s) :
    wp (step b B l) (fun next s' => (∃ new, s'.trace = es ++ new ∧ ∀ e ∈ new, Aside e) ∧
      ∀ l', next = some l' → Leaving es l' s') (fun _ _ => True) s := by
  obtain ⟨hraising, hput, hflush, hrename⟩ := aside_events
  have hadds : ∀ {s s' : State σ}, (∃ new, s.trace = es ++ new ∧ ∀ e ∈ new, Aside e) → Adds Aside s s' →
      ∃ new, s'.trace = es ++ new ∧ ∀ e ∈ new, Aside e := by
    rintro s s' ⟨new, htrace, hnew⟩ hstep
    obtain ⟨more, hmore, haside⟩ := hstep.trace
    refine ⟨new ++ more, by rw [hmore, htrace, List.append_assoc], fun e he => ?_⟩
    rcases List.mem_append.mp he with he | he
    · exact hnew e he
    · exact haside e he
  rw [wp_step]
  -- two labels are left, and only the first one can raise an error
  rcases h.label with rfl | rfl
  · have hkeeping : Keeping Aside (wireFlush b B) :=
      performs_bind (keeping_record hflush) fun _ =>
        performs_bind (keeping_finishReply b B hraising fun source bytes _ => hput source bytes) fun _ =>
          keeping_handOver hrename
    have hinput : KeepsInput (wireFlush b B) :=
      performs_bind (keepsInput_modify fun _ => rfl) fun _ =>
        performs_bind (keepsInput_of_sends (sends_finishReply B hreads)) fun _ => keepsInput_handOver
    rw [block, wp_bind]
    refine wp_mono (wp_and (hkeeping.spec s) (hinput.spec s)) ?_ ?_
    · rintro _ s' ⟨hstill, hsame⟩
      have htrace := hadds h.trace hstill.toAdds
      refine ⟨htrace, ?_⟩
      rintro l' hl'
      obtain rfl := Option.some.inj hl'
      exact ⟨.inr rfl, fun harmed => hsame.trans (h.input (hstill.armed ▸ harmed)), htrace⟩
    · rintro e s' ⟨hstill, hsame⟩
      split_ifs with hhandled
      have hempty : s'.comm.pqBufferRemainingData = 0 :=
        hsame.trans (h.input (hstill.armed ▸ hhandled.2))
      refine wp_mono (wp_and ((adding_handler b B (hput .error)).spec s') (handler_empty B hempty)) ?_
        fun _ _ _ => trivial
      rintro l' s'' ⟨hadds', rfl, hsame'⟩
      have htrace := hadds (hadds h.trace hstill.toAdds) hadds'
      refine ⟨htrace, ?_⟩
      rintro l' hl'
      obtain rfl := Option.some.inj hl'
      exact ⟨.inl rfl, fun _ => hsame', htrace⟩
  · exact ⟨h.trace, fun l' hl' => by cases hl'⟩

/-- The rest of the call neither dispatches nor prompts. -/
theorem Leaving.run (h : Leaving es l s) (fuel : ℕ) :
    wp (run b B fuel l) (fun _ s' => ∃ new, s'.trace = es ++ new ∧ ∀ e ∈ new, Aside e)
      (fun _ _ => True) s := by
  refine follow_inv (J := Leaving es) ?_ (fun _ _ _ => trivial) fuel h
  intro l s h
  refine wp_mono (h.step hreads) ?_ fun _ _ h => h
  rintro next s' ⟨htrace, hnext⟩
  cases next with
  | none => exact htrace
  | some l' => exact hnext l' rfl

end Leaving

/-! ## The way to the loop -/

/-- What may happen before a statement is looked at. -/
def Preliminary (e : Event) : Prop := e = .raising .processNotifyInterrupt ∨ e = .sigsetjmp

/-- The statement at the head of the loop, with its error handler set. -/
structure AtLoop (b : Build) (B : Backend σ) (stmt : Statement) (s z : State σ) : Prop where
  wire : z.isWire = false
  repl : z.isRepl = true
  pipe : z.pipelining = true
  armed : z.armed = true
  ignore : z.ignoreTillSync = s.ignoreTillSync
  extended : z.doingExtendedQueryMessage = s.doingExtendedQueryMessage
  db : z.db = s.delivered B
  inBuf : z.inBuf = stmt.sql
  trace : ∃ new, z.trace = s.trace ++ new ∧ ∀ e ∈ new, Preliminary e
  data : z.comm.socketData = (s.connected b).comm.socketData
  wsize : z.cmaWsize = 0
  channel : z.channel = s.channel
  remaining : z.comm.pqBufferRemainingData = (s.connected b).comm.pqBufferRemainingData
  reading : z.comm.pqCommReadingMsg = (s.connected b).comm.pqCommReadingMsg
  canary : z.canaryEx = s.canaryEx

section Statement

variable (stmt : Statement)

variable (hb : b.sigsetjmp = true) (hreads : ∀ d, (B.processNotify d).reads = 0)

include hb hreads

end Statement

/-! ## How a statement ends -/

section Events

variable {new : List Event}

/-- Before the statement nothing is dispatched, prompted or put. -/
theorem preliminary_events (h : ∀ e ∈ new, Preliminary e) :
    dispatches new = [] ∧ new.count .prompt = 0 ∧ ∀ source bytes, .put source bytes ∉ new := by
  refine ⟨List.filterMap_eq_nil_iff.mpr fun e he => ?_, List.count_eq_zero.mpr fun he => ?_,
    fun source bytes he => ?_⟩
  · rcases h e he with rfl | rfl
    · rfl
    · rfl
  · rcases h _ he with heq | heq <;> cases heq
  · rcases h _ he with heq | heq <;> cases heq

end Events

/-- The state at the head of the loop behind a statement. -/
structure Executed (stmt : Statement) (z w : State σ) : Prop where
  wire : w.isWire = false
  repl : w.isRepl = true
  trace : ∃ new, w.trace = z.trace ++ (.raising .messageSwitch :: .dispatch .query (stmt.sql ++ [0]) :: new) ∧
    ∀ e ∈ new, Preliminary e
  data : w.comm.socketData = z.comm.socketData
  wsize : w.cmaWsize = z.cmaWsize
  channel : w.channel = z.channel

variable {stmt : Statement} {z z₀ w : State σ}

/-- A statement behind which the loop is left for the prompt keeps the contract. -/
theorem AtLoop.keeps (h : AtLoop b B stmt s z)
    (hcall : ∀ fuel, interactiveOne b B fuel (s.request .cma stmt.sql) = run b B fuel .incoming z₀)
    (hstart : step b B .incoming z₀ = .ok (some .loop) z) (hleads : Leads (step b B) .loop z .loop w)
    (hw : Executed stmt z w) (hpipe : w.pipelining = false) : KeepsContract b B stmt s := by
  obtain ⟨before, hbefore, hquiet⟩ := h.trace
  obtain ⟨behind, hbehind, hquiet'⟩ := hw.trace
  obtain ⟨hdispatches, hprompts, hputs⟩ := preliminary_events hquiet
  obtain ⟨hdispatches', hprompts', hputs'⟩ := preliminary_events hquiet'
  refine ⟨_, before ++ (.raising .messageSwitch :: .dispatch .query (stmt.sql ++ [0]) :: (behind ++ [.prompt])),
    calls_of_ends hcall (.jump hstart (hleads.ends (ends_prompt hw.repl hpipe))), ?_, ?_, ?_, ?_,
    hw.data.trans h.data, hw.wsize.trans h.wsize, hw.channel.trans h.channel⟩
  · show w.trace ++ [Event.prompt] = _
    rw [hbehind, hbefore]
    simp
  · have hmessage : ∀ es, dispatches (.raising .messageSwitch :: es) = dispatches es := fun _ => rfl
    rw [dispatches_append, hdispatches, hmessage, dispatches_dispatch, dispatches_append, hdispatches']
    rfl
  · rw [List.count_append, hprompts]
    simp [hprompts']
  · intro source bytes hmem
    simp [hputs, hputs'] at hmem

section Again

variable (hb : b.sigsetjmp = true) (h : AtLoop b B stmt s z) (hobeyed : s.ignoreTillSync = false)
  {e : ErrorReport} (herror : (B.exec (s.delivered B) .query (stmt.sql ++ [0])).error = some e)
  (hmore : 0 < (s.connected b).comm.pqBufferRemainingData)
  (hreading : (s.connected b).comm.pqCommReadingMsg = false) (hcanary : s.canaryEx ≤ 8)

include hb h hobeyed herror hmore hreading hcanary

end Again

/-- A call that keeps the contract returns wherever the machine leaves it. -/
theorem KeepsContract.calls (h : KeepsContract b B stmt s) {n : ℕ} {t : State σ}
    (hpath : Path (Machine b B) (entered b B (s.request .cma stmt.sql)) (List.replicate n .code) (.idle t)) :
    Calls b B (s.request .cma stmt.sql) (.ok () t) := by
  obtain ⟨s', -, hreturns, -⟩ := h
  rcases calls_of_code hpath with hcalls | herror
  · exact hcalls
  · cases hreturns.unique herror

/-- The statement `hi`. -/
def Statement.hi : Statement := ⟨[104, 105], by decide, by decide⟩

end PgliteBuild
