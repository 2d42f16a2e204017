import PgliteBuild.InteractiveOne.ArmedHandler
import PgliteBuild.InteractiveOne.Events
import PgliteBuild.InteractiveOne.Machine

/-! # The authentication gate

Once `startup_auth` has asked for a password, the client has no session until `startup_pass` has accepted
one. The gate flag, `ClientAuthInProgress`, is tested at `wire_flush` only; whether a message is
dispatched depends on the first byte of its packet. The gate is kept in every run in which no message that
`SocketBackend` would hand over reaches the loop while the flag is set. -/

namespace PgliteBuild

open Effect Framing Runs

variable {σ α : Type} {b : Build} {B : Backend σ} {s s' : State σ} {es new : List Event} {P : Event → Prop}

/-! ## The gate in the history -/

/-- `startup_auth` asks for a password. -/
def passwordRequest : Event := .put .auth (82 :: encodeBody (word32 5 ++ [0x01, 0x23, 0x45, 0x56]))

/-- `startup_pass` accepts one. -/
def passwordAccepted : Event := .put .auth (82 :: encodeBody (word32 0))

/-- Whether a password is awaited after an event. -/
def Event.gate (up : Bool) (e : Event) : Bool :=
  if e = passwordRequest then true else if e = passwordAccepted then false else up

/-- Whether a password is awaited after a history. -/
def awaiting (es : List Event) : Bool := es.foldl Event.gate false

/-- No message is dispatched and no ReadyForQuery is put while a password is awaited. -/
def GateKept (es : List Event) : Prop :=
  ∀ pre e, pre ++ [e] <+: es → awaiting pre = true → e.serves = false

/-- Without events the gate is kept. -/
theorem gateKept_nil : GateKept [] := by
  intro pre e hpre
  simpa using hpre.length_le

/-- A plain event is no request for a password. -/
theorem Plain.ne_request {e : Event} (h : Plain e) : e ≠ passwordRequest := by
  rintro rfl
  cases h

/-- A plain event leaves the gate as it is. -/
theorem Plain.gate {e : Event} (h : Plain e) (up : Bool) : e.gate up = up := by
  have haccepted : e ≠ passwordAccepted := by
    rintro rfl
    cases h
  rw [Event.gate, if_neg h.ne_request, if_neg haccepted]

/-- The gate behind two stretches is that of the first, moved on by the second. -/
theorem awaiting_append (es new : List Event) : awaiting (es ++ new) = new.foldl Event.gate (awaiting es) :=
  List.foldl_append ..

/-- Plain events leave the gate as it is. -/
theorem awaiting_plain (hnew : ∀ e ∈ new, Plain e) : awaiting (es ++ new) = awaiting es := by
  induction new generalizing es with
  | nil => rw [List.append_nil]
  | cons e new ih =>
      have hfirst : awaiting (es ++ [e]) = awaiting es := by
        rw [awaiting_append]
        exact (hnew e List.mem_cons_self).gate _
      rw [List.append_cons, ih fun e' he' => hnew e' (List.mem_cons_of_mem e he'), hfirst]

/-- Without a new request no password is awaited. -/
theorem awaiting_down (hes : awaiting es = false) (hnew : ∀ e ∈ new, e ≠ passwordRequest) :
    awaiting (es ++ new) = false := by
  induction new generalizing es with
  | nil => rwa [List.append_nil]
  | cons e new ih =>
      have hfirst : awaiting (es ++ [e]) = false := by
        rw [awaiting_append, List.foldl_cons, List.foldl_nil, hes, Event.gate,
          if_neg (hnew e List.mem_cons_self)]
        split_ifs <;> rfl
      rw [List.append_cons]
      exact ih hfirst fun e' he' => hnew e' (List.mem_cons_of_mem e he')

/-- One more event keeps the gate unless it serves a client that is awaited to log in. -/
theorem GateKept.concat {e : Event} (h : GateKept es) (he : awaiting es = true → e.serves = false) :
    GateKept (es ++ [e]) := by
  intro pre e' hpre hup
  rcases List.prefix_concat_iff.mp hpre with hlast | hold
  · obtain ⟨rfl, hsame⟩ := List.append_inj' hlast rfl
    obtain rfl : e' = e := List.singleton_inj.mp hsame
    exact he hup
  · exact h pre e' hold hup

/-- Events that serve nobody keep the gate. -/
theorem GateKept.unserving (h : GateKept es) (hnew : ∀ e ∈ new, e.serves = false) :
    GateKept (es ++ new) := by
  induction new generalizing es with
  | nil => rwa [List.append_nil]
  | cons e new ih =>
      rw [List.append_cons]
      have hfirst : GateKept (es ++ [e]) := h.concat fun _ => hnew e List.mem_cons_self
      exact ih hfirst fun e' he' => hnew e' (List.mem_cons_of_mem e he')

/-- While no password is awaited, all events but a new request keep the gate. -/
theorem GateKept.down (h : GateKept es) (hes : awaiting es = false)
    (hnew : ∀ e ∈ new, e ≠ passwordRequest) : GateKept (es ++ new) := by
  induction new generalizing es with
  | nil => rwa [List.append_nil]
  | cons e new ih =>
      rw [List.append_cons]
      have hfirst : GateKept (es ++ [e]) := by
        apply h.concat
        intro hup
        rw [hes] at hup
        cases hup
      have hdown : awaiting (es ++ [e]) = false := by
        apply awaiting_down hes
        intro e' he'
        rw [List.mem_singleton.mp he']
        exact hnew e List.mem_cons_self
      exact ih hfirst hdown fun e' he' => hnew e' (List.mem_cons_of_mem e he')

/-! ## The invariant -/

/-- A backend in wire mode whose flag is set while a password is awaited. -/
structure Gated (s : State σ) : Prop where
  wire : s.isWire = true
  repl : s.isRepl = false
  port : s.myProcPort = false → s.clientAuthInProgress = false
  up : awaiting s.trace = true → s.clientAuthInProgress = true
  kept : GateKept s.trace

/-- Silent events keep a gated state gated. -/
theorem Gated.silent (h : Gated s) (hadds : Adds Silent s s') : Gated s' := by
  obtain ⟨new, htrace, hnew⟩ := hadds.trace
  refine ⟨hadds.wire.trans h.wire, hadds.repl h.repl, ?_, ?_, ?_⟩
  · rw [hadds.port, hadds.auth]
    exact h.port
  · rw [htrace, awaiting_plain fun e he => (hnew e he).plain, hadds.auth]
    exact h.up
  · rw [htrace]
    exact h.kept.unserving fun e he => (hnew e he).2

/-- With the flag clear anything may be put but a request for a password. -/
theorem Gated.down (h : Gated s) (hauth : s.clientAuthInProgress = false)
    (hadds : Adds (· ≠ passwordRequest) s s') : Gated s' := by
  obtain ⟨new, htrace, hnew⟩ := hadds.trace
  have hdown : awaiting s.trace = false := by
    rw [← Bool.not_eq_true]
    intro hup
    rw [h.up hup] at hauth
    cases hauth
  refine ⟨hadds.wire.trans h.wire, hadds.repl h.repl, ?_, ?_, ?_⟩
  · rw [hadds.auth]
    exact fun _ => hauth
  · rw [htrace, awaiting_down hdown hnew]
    exact fun hup => by cases hup
  · rw [htrace]
    exact h.kept.down hdown hnew

/-- What a computation promises to the gate: it keeps the invariant when it returns or raises an error,
and the history when it stops the process. -/
def KeepsGate (m : PgM σ α) (s : State σ) : Prop :=
  wp m (fun _ s' => Gated s' ∧ s'.myProcPort = s.myProcPort ∧ s'.armed = s.armed)
    (fun e s' => GateKept s'.trace ∧
      (e = .error → Gated s' ∧ s'.myProcPort = s.myProcPort ∧ s'.armed = s.armed)) s

/-- Code that adds silent events only keeps the gate. -/
theorem KeepsGate.of_silent {m : PgM σ α} (h : Gated s) (hm : Adding Silent m) : KeepsGate m s :=
  wp_mono (hm.spec s) (fun _ _ hadds => ⟨h.silent hadds, hadds.port, hadds.armed⟩) fun _ _ hadds =>
    ⟨(h.silent hadds).kept, fun _ => ⟨h.silent hadds, hadds.port, hadds.armed⟩⟩

/-- While no password is awaited, code that requests none keeps the gate. -/
theorem KeepsGate.of_down {m : PgM σ α} (h : Gated s) (hauth : s.clientAuthInProgress = false)
    (hm : Adding (· ≠ passwordRequest) m) : KeepsGate m s :=
  wp_mono (hm.spec s) (fun _ _ hadds => ⟨h.down hauth hadds, hadds.port, hadds.armed⟩) fun _ _ hadds =>
    ⟨(h.down hauth hadds).kept, fun _ => ⟨h.down hauth hadds, hadds.port, hadds.armed⟩⟩

/-- Sequencing. -/
theorem KeepsGate.bind {β : Type} {m : PgM σ α} {f : α → PgM σ β} (hm : KeepsGate m s)
    (hf : ∀ a s', Gated s' → s'.myProcPort = s.myProcPort → KeepsGate (f a) s') :
    KeepsGate (m >>= f) s := by
  rw [KeepsGate, wp_bind]
  refine wp_mono hm (fun a s' h => ?_) fun _ _ h => h
  obtain ⟨hgated, hport, harmed⟩ := h
  refine wp_mono (hf a s' hgated hport) ?_ ?_
  · rintro a' s'' ⟨h', hport', harmed'⟩
    exact ⟨h', hport'.trans hport, harmed'.trans harmed⟩
  · rintro e s'' ⟨hkept, herror⟩
    refine ⟨hkept, fun he => ?_⟩
    obtain ⟨h', hport', harmed'⟩ := herror he
    exact ⟨h', hport'.trans hport, harmed'.trans harmed⟩

/-! ## Startup and password -/

/-- Putting a message and noting it, whatever the connection does. -/
theorem putmessage_traced (source : Source) (msgtype : UInt8) (body : List UInt8) (s : State σ) :
    wp (putmessage source msgtype body)
      (fun _ s' => ∃ c, s' = { s with
        comm := c, trace := s.trace ++ [.put source (msgtype :: encodeBody body)] })
      (fun e s' => e ≠ .error ∧ ∃ c, s' = { s with comm := c }) s := by
  have hthrows : Throws (· ≠ .error) (pqPutmessage msgtype body) :=
    throws_bind (throws_internalPutbytes _) fun _ =>
      throws_bind (throws_internalPutbytes _) fun _ => throws_internalPutbytes _
  rw [putmessage, wp_bind, wp_liftComm]
  exact wp_mono (hthrows s.comm) (fun _ c _ => ⟨c, rfl⟩) fun e c he => ⟨he, c, rfl⟩

/-- The request for a password comes with the flag. -/
theorem keepsGate_request (h : Gated s) (hport : s.myProcPort = true) :
    KeepsGate (do
      modify fun s => { s with clientAuthInProgress := true }
      putmessage .auth 82 (word32 5 ++ [0x01, 0x23, 0x45, 0x56])
      liftComm internalFlush : PgM σ Unit) s := by
  rw [KeepsGate, wp_bind, wp_modify, wp_bind]
  refine wp_mono (putmessage_traced _ _ _ _) ?_ ?_
  · rintro _ _ ⟨c, rfl⟩
    refine ⟨⟨h.wire, h.repl, ?_, fun _ => rfl, h.kept.concat fun _ => rfl⟩, rfl, rfl⟩
    intro hnone
    exact absurd (hport.symm.trans hnone) (by simp)
  · rintro e _ ⟨herror, c, rfl⟩
    exact ⟨h.kept, fun he => absurd he herror⟩

/-- `startup_auth` keeps the gate: it requests a password and awaits it. -/
theorem keepsGate_startupAuth (h : Gated s) (hport : s.myProcPort = true) :
    KeepsGate (startupAuth b : PgM σ Unit) s := by
  refine KeepsGate.bind (.of_silent h (keeping_record ⟨rfl, rfl⟩).adding) fun _ s₁ h₁ hport₁ => ?_
  refine KeepsGate.bind (.of_silent h₁ (adding_modify fun _ => by constructor <;> rfl))
    fun _ s₂ h₂ hport₂ => ?_
  refine KeepsGate.bind (.of_silent h₂ (adding_modify fun _ => by constructor <;> rfl))
    fun _ s₃ h₃ hport₃ => ?_
  refine KeepsGate.bind (.of_silent h₃ (keeping_discardInput b).adding) fun _ s₄ h₄ hport₄ => ?_
  exact keepsGate_request h₄ (by rw [hport₄, hport₃, hport₂, hport₁, hport])

/-- What `startup_pass` puts behind the acceptance asks for no password. -/
theorem ne_request {msgtype : UInt8} {bytes : List UInt8} (h : msgtype ≠ 82) :
    Event.put .auth (msgtype :: bytes) ≠ passwordRequest := by
  intro heq
  rw [passwordRequest, Event.put.injEq, List.cons.injEq] at heq
  exact h heq.2.1

/-- A message of the authentication but its own type is no request for a password. -/
theorem adding_settings {msgtype : UInt8} (h : msgtype ≠ 82) (body : List UInt8) :
    Adding (· ≠ passwordRequest) (putmessage .auth msgtype body : PgM σ Unit) :=
  performs_bind (keeping_liftComm _).adding fun _ =>
    (keeping_record (P := fun e => e ≠ passwordRequest) (ne_request h)).adding

/-- The acceptance of a password lowers the gate with the flag. -/
theorem keepsGate_accept (h : Gated s) :
    KeepsGate (do
      modify fun s => { s with clientAuthInProgress := false }
      putmessage .auth 82 (word32 0)
      putmessages .auth 83 (B.gucReport (← get).db)
      putmessage .auth 75 B.backendKey
      modify fun s => { s with sendReadyForQuery := true, ignoreTillSync := false } : PgM σ Unit) s := by
  have hsettings : Adding (σ := σ) (· ≠ passwordRequest) (do
      putmessages .auth 83 (B.gucReport (← get).db)
      putmessage .auth 75 B.backendKey
      modify fun s => { s with sendReadyForQuery := true, ignoreTillSync := false } : PgM σ Unit) := by
    have hbodies : ∀ bodies, Adding (· ≠ passwordRequest) (putmessages .auth 83 bodies : PgM σ Unit) := by
      intro bodies
      induction bodies with
      | nil => exact performs_pure _
      | cons body bodies ih =>
          exact performs_bind (adding_settings (by decide) body) fun _ => ih
    refine performs_bind performs_get fun s => performs_bind (hbodies _) fun _ => ?_
    refine performs_bind (adding_settings (by decide) _) fun _ => ?_
    exact adding_modify fun _ => by constructor <;> rfl
  rw [KeepsGate, wp_bind, wp_modify, wp_bind]
  refine wp_mono (putmessage_traced _ _ _ _) ?_ ?_
  · rintro _ s₁ ⟨c, hs₁⟩
    have hdown : awaiting (s.trace ++ [passwordAccepted]) = false := by
      rw [awaiting_append]
      rfl
    have haccepted : Gated s₁ := by
      rw [hs₁]
      refine ⟨h.wire, h.repl, fun _ => rfl, ?_, h.kept.concat fun _ => rfl⟩
      intro hup
      cases hdown.symm.trans hup
    have hrest := KeepsGate.of_down haccepted (by rw [hs₁]) hsettings
    rw [KeepsGate, hs₁] at hrest
    rw [hs₁]
    exact hrest
  · rintro e _ ⟨herror, c, rfl⟩
    exact ⟨h.kept, fun he => absurd he herror⟩

/-- `startup_pass` keeps the gate: what it puts comes behind the end of the authentication. -/
theorem keepsGate_startupPass (h : Gated s) (check : Bool) : KeepsGate (startupPass b B check) s := by
  refine KeepsGate.bind (.of_silent h (keeping_record ⟨rfl, rfl⟩).adding) fun _ s₁ h₁ _ => ?_
  dsimp only
  split
  · refine KeepsGate.bind (.of_silent h₁ (keeping_recvPasswordPacket b).adding) fun passwd s₂ h₂ _ => ?_
    cases passwd with
    | none => exact ⟨h₂.kept, fun he => by cases he⟩
    | some body => exact keepsGate_accept h₂
  · exact KeepsGate.bind (.of_silent h₁ (keeping_discardInput b).adding) fun _ s₂ h₂ _ => keepsGate_accept h₂

/-! ## Messages that reach the loop -/

/-- What the input begins with is not a message that will be dispatched. -/
def Withheld (b : Build) (s : State σ) : Prop :=
  ∀ m, s.comm.nextMessage b = some m → s.ignoreTillSync = true ∧ m.endsSkip = false

/-- While a password is awaited, no message that would be dispatched reaches the loop: the packet begins
as a startup or a password packet, or nothing in it is handed over, or all of it is skipped. -/
def WithholdsMessages (b : Build) (s : State σ) : Prop :=
  s.clientAuthInProgress = true → s.pipelining = true → s.peek ≠ some 0 → s.peek ≠ some 112 → Withheld b s

/-- Acting on a message requests no password. -/
theorem adding_actOn (firstchar : Option FrontendMsg) :
    Adding (· ≠ passwordRequest) (actOn b B firstchar) := by
  have hplain : ∀ e : Event, Plain e → e ≠ passwordRequest := fun _ => Plain.ne_request
  refine performs_bind performs_get fun s => performs_ite (performs_pure _) ?_
  refine performs_bind ((adding_protoSwitch b B firstchar).mono hplain) fun shortcut => ?_
  refine performs_ite (performs_pure _) ?_
  exact performs_bind ((keeping_betweenMessages B).adding.mono hplain) fun _ => performs_pure _

/-- At the end of the input the session is closed. -/
theorem keepsGate_eof (h : Gated s) : KeepsGate (actOn b B none) s := by
  have hclosed : Adding Silent (do
      record (.raising .messageSwitch)
      closeConnection : PgM σ Unit) :=
    performs_bind (keeping_record ⟨rfl, rfl⟩).adding fun _ => adding_closeConnection
  have hkeeps := KeepsGate.of_silent h hclosed
  have hcond : ¬(s.ignoreTillSync && (none : Option FrontendMsg).any (· ≠ .sync)) = true := by simp
  rw [KeepsGate, actOn, wp_bind, wp_get, if_neg hcond]
  exact hkeeps

/-- With the gate up, what was handed over is skipped. -/
theorem keepsGate_skipped {m : FrontendMsg} (h : Gated s) (hignore : s.ignoreTillSync = true)
    (hm : m.endsSkip = false) : KeepsGate (actOn b B (some m)) s := by
  have hsync : m ≠ .sync := by
    rintro rfl
    cases hm
  have hcond : (s.ignoreTillSync && (some m).any (· ≠ .sync)) = true := by simp [hignore, hsync]
  rw [KeepsGate, actOn, wp_bind, wp_get, if_pos hcond]
  exact ⟨h, rfl, rfl⟩

/-- The lines of the loop that read a message and act on it. -/
theorem keepsGate_message (h : Gated s) (hguard : s.clientAuthInProgress = true → Withheld b s) :
    KeepsGate (do
      let firstchar ← nextMessage b B
      actOn b B firstchar) s := by
  rw [KeepsGate, wp_bind, nextMessage, wp_bind, wp_get, if_pos h.wire, wp_bind]
  refine wp_mono (wp_and ((adding_socketBackend b B).spec s) (socketBackend_nextMessage b B s)) ?_ ?_
  swap
  · rintro e s₁ ⟨hadds, -⟩
    exact ⟨(h.silent hadds).kept, fun _ => ⟨h.silent hadds, hadds.port, hadds.armed⟩⟩
  rintro firstchar s₁ ⟨hadds, hmessage⟩
  rw [wp_bind, wp_modify, wp_pure]
  -- noting whether data is buffered changes nothing here
  have hnext : Adds Silent s { s₁ with pipelining := decide (0 < s₁.comm.pqBufferRemainingData) } :=
    hadds.trans (SameAuth.adds (by constructor <;> rfl))
  have hgated := h.silent hnext
  have hact : KeepsGate (actOn b B firstchar)
      { s₁ with pipelining := decide (0 < s₁.comm.pqBufferRemainingData) } := by
    -- with the flag set only what is skipped, or the end of the input, may come this far
    rcases Bool.eq_false_or_eq_true s.clientAuthInProgress with hauth | hauth
    · cases firstchar with
      | none => exact keepsGate_eof hgated
      | some m =>
          obtain ⟨hm, hignored, -⟩ := hmessage m rfl
          obtain ⟨hignore, hends⟩ := hguard hauth m hm
          rw [hignore, hends] at hignored
          exact keepsGate_skipped hgated hignored hends
    · exact .of_down hgated (hnext.auth.trans hauth) (adding_actOn firstchar)
  refine wp_mono hact ?_ ?_
  · rintro l s₂ ⟨h₂, hport, harmed⟩
    exact ⟨h₂, hport.trans hnext.port, harmed.trans hnext.armed⟩
  · rintro e s₂ ⟨hkept, herror⟩
    refine ⟨hkept, fun he => ?_⟩
    obtain ⟨h₂, hport, harmed⟩ := herror he
    exact ⟨h₂, hport.trans hnext.port, harmed.trans hnext.armed⟩

/-- One round of the loop. -/
theorem keepsGate_loopRound (h : Gated s) (hport : s.myProcPort = true) (hpipe : s.pipelining = true)
    (hguard : WithholdsMessages b s) : KeepsGate (loopRound b B) s := by
  have hpure : ∀ (l : Label) (s' : State σ), Gated s' → KeepsGate (pure l) s' :=
    fun _ _ h' => ⟨h', rfl, rfl⟩
  have hsame : s.round = s := if_neg (by simp [h.repl])
  rw [KeepsGate, wp_of_eq (loopRound_eq b B s), hsame]
  split_ifs with hzero hpass
  · exact (keepsGate_startupAuth h hport).bind fun _ s' h' _ => hpure _ s' h'
  · exact (keepsGate_startupPass h true).bind fun _ s' h' _ => hpure _ s' h'
  · have hpeek : s.peek ≠ some 0 ∧ s.peek ≠ some 112 := by
      simpa [h.wire] using And.intro hzero hpass
    exact keepsGate_message h fun hauth => hguard hauth hpipe hpeek.1 hpeek.2

/-! ## The labels of a call -/

variable {l : Label}

/-- `wire_flush` keeps the gate: while a password is awaited it puts no ReadyForQuery. -/
theorem keepsGate_wireFlush (h : Gated s) : KeepsGate (block b B .wireFlush) s := by
  have hplain : ∀ e : Event, Plain e → e ≠ passwordRequest := fun _ => Plain.ne_request
  have hfinish : ∀ s : State σ, Gated s → KeepsGate (finishReply b B) s := by
    intro s h
    rcases Bool.eq_false_or_eq_true s.clientAuthInProgress with hauth | hauth
    · -- the gate of `wire_flush`
      rw [KeepsGate, wp_of_ok (finishReply_nothing (.inl hauth))]
      exact ⟨h, rfl, rfl⟩
    · have hfinish : Keeping Plain (finishReply b B) :=
        keeping_finishReply b B (fun _ => rfl) fun _ bytes hsource => plain_put hsource bytes
      exact .of_down h hauth (hfinish.adding.mono hplain)
  have hflush : KeepsGate (wireFlush b B) s := by
    refine KeepsGate.bind (.of_silent h (keeping_record ⟨rfl, rfl⟩).adding) fun _ s₁ h₁ _ => ?_
    refine KeepsGate.bind (hfinish s₁ h₁) fun _ s₂ h₂ _ => ?_
    exact .of_silent h₂ (keeping_handOver ⟨rfl, rfl⟩).adding
  exact hflush.bind fun _ s' h' _ => ⟨h', rfl, rfl⟩

/-- The labels behind the loop. -/
theorem keepsGate_late (h : Gated s) (hincoming : l ≠ .incoming) (hloop : l ≠ .loop) :
    KeepsGate (block b B l) s := by
  cases l with
  | incoming => exact absurd rfl hincoming
  | loop => exact absurd rfl hloop
  | resumeOnError =>
      refine .of_silent h ?_
      refine performs_bind performs_get fun s => performs_ite ?_ (performs_pure _)
      exact performs_bind (keeping_record ⟨rfl, rfl⟩).adding fun _ => performs_pure _
  | wireFlush => exact keepsGate_wireFlush h
  | returnEarly =>
      refine .of_silent h ?_
      exact performs_bind (adding_modify fun _ => by constructor <;> rfl) fun _ => performs_pure _

/-- They do not lead back to the loop. -/
theorem late_label (hincoming : l ≠ .incoming) (hloop : l ≠ .loop) :
    Returns (fun next => next ≠ some .incoming ∧ next ≠ some .loop) (block b B l) := by
  cases l with
  | incoming => exact absurd rfl hincoming
  | loop => exact absurd rfl hloop
  | resumeOnError =>
      refine returns_bind fun s => returns_ite (returns_bind fun _ => returns_pure ?_) (returns_pure ?_)
      · simp
      · simp
  | wireFlush => exact returns_bind fun _ => returns_pure (by simp)
  | returnEarly => exact returns_bind fun _ => returns_pure (by simp)

/-- A call has a client port where it may read, and wherever its handler is set. -/
def Placed (l : Label) (s : State σ) : Prop :=
  s.myProcPort = true ∨ s.armed = false ∧ l ≠ .incoming ∧ l ≠ .loop

/-- The code at every label keeps the state gated, if the loop withholds messages from a client that is not
authenticated. -/
theorem gated_block (h : Gated s) (hplaced : Placed l s) (hguard : l = .loop → WithholdsMessages b s) :
    wp (block b B l) (fun next s' => Gated s' ∧ ∀ l', next = some l' → Placed l' s')
      (fun e s' => GateKept s'.trace ∧
        (e = .error → Gated s' ∧ (s'.armed = true → s'.myProcPort = true))) s := by
  have hattached : ∀ {m : PgM σ (Option Label)}, s.myProcPort = true → KeepsGate m s →
      wp m (fun next s' => Gated s' ∧ ∀ l', next = some l' → Placed l' s')
        (fun e s' => GateKept s'.trace ∧
          (e = .error → Gated s' ∧ (s'.armed = true → s'.myProcPort = true))) s := by
    intro m hport hm
    refine wp_mono hm ?_ ?_
    · rintro next s' ⟨h', hport', -⟩
      exact ⟨h', fun l' _ => .inl (hport'.trans hport)⟩
    · rintro e s' ⟨hkept, herror⟩
      refine ⟨hkept, fun he => ?_⟩
      obtain ⟨h', hport', -⟩ := herror he
      exact ⟨h', fun _ => hport'.trans hport⟩
  by_cases hincoming : l = .incoming
  · subst hincoming
    have hport : s.myProcPort = true := by
      rcases hplaced with hport | ⟨-, hno, -⟩
      · exact hport
      · exact absurd rfl hno
    rw [block]
    split_ifs
    · have harmed : Gated { s with armed := true } := ⟨h.wire, h.repl, h.port, h.up, h.kept⟩
      have hadds : Adds Silent { s with armed := true }
          { s with armed := true, trace := s.trace ++ [.sigsetjmp] } := by
        refine ⟨⟨[.sigsetjmp], rfl, fun e he => ?_⟩, rfl, rfl, id, rfl, rfl⟩
        rw [List.mem_singleton.mp he]
        exact ⟨rfl, rfl⟩
      have hnoted := harmed.silent hadds
      exact ⟨hnoted, fun _ _ => .inl hport⟩
    · exact ⟨h, fun _ _ => .inl hport⟩
  by_cases hloop : l = .loop
  · subst hloop
    have hport : s.myProcPort = true := by
      rcases hplaced with hport | ⟨-, -, hno⟩
      · exact hport
      · exact absurd rfl hno
    refine hattached hport ?_
    rw [KeepsGate, block, wp_bind, wp_get]
    split_ifs with hpipe
    · exact (keepsGate_loopRound h hport hpipe (hguard rfl)).bind fun _ _ h' _ => ⟨h', rfl, rfl⟩
    · exact ⟨h, rfl, rfl⟩
  rcases hplaced with hport | ⟨hunarmed, -, -⟩
  · exact hattached hport (keepsGate_late h hincoming hloop)
  · refine wp_mono (wp_and (keepsGate_late h hincoming hloop) (late_label hincoming hloop s)) ?_ ?_
    · rintro next s' ⟨⟨h', -, harmed⟩, hlate⟩
      refine ⟨h', fun l' hl' => .inr ⟨harmed.trans hunarmed, ?_, ?_⟩⟩
      · rintro rfl
        exact hlate.1 hl'
      · rintro rfl
        exact hlate.2 hl'
    · rintro e s' ⟨⟨hkept, herror⟩, -⟩
      refine ⟨hkept, fun he => ?_⟩
      obtain ⟨h', -, harmed⟩ := herror he
      refine ⟨h', fun hset => ?_⟩
      rw [harmed, hunarmed] at hset
      cases hset

/-- **Step lemma**: the code at a label keeps the gate. -/
theorem gated_step (h : Gated s) (hplaced : Placed l s) (hguard : l = .loop → WithholdsMessages b s) :
    wp (step b B l) (fun next s' => Gated s' ∧ ∀ l', next = some l' → Placed l' s')
      (fun e s' => GateKept s'.trace ∧ (e = .error → Gated s')) s := by
  rw [wp_step]
  refine wp_mono (gated_block h hplaced hguard) (fun _ _ h' => h') ?_
  rintro e s' ⟨hkept, herror⟩
  split_ifs with hhandled
  · obtain ⟨rfl, harmed⟩ := hhandled
    obtain ⟨h', hport⟩ := herror rfl
    have hhandler : KeepsGate (handler b B) s' := .of_silent h'
      (adding_handler b B (silent_put (by simp) (by simp)))
    refine wp_mono hhandler ?_ ?_
    · rintro l' s'' ⟨h'', hport', -⟩
      exact ⟨h'', fun _ _ => .inl (hport'.trans (hport harmed))⟩
    · rintro e s'' ⟨hkept', herror'⟩
      exact ⟨hkept', fun he => (herror' he).1⟩
  · exact ⟨hkept, fun he => (herror he).1⟩

/-! ## The entry of a call -/

/-- The intake of a packet in the memory area adds silent events only. -/
theorem adding_intakeMemory (n : ℕ) : Adding Silent (intakeMemory n : PgM σ Label) := by
  refine performs_bind (adding_modify fun _ => by constructor <;> rfl) fun _ => ?_
  refine performs_ite (performs_bind performs_get fun s => ?_) (performs_pure _)
  dsimp only
  split
  · exact performs_bind (keeping_record ⟨rfl, rfl⟩).adding fun _ => performs_pure _
  · exact performs_pure _

/-- The intake of a packet in the socket file keeps the gate. -/
theorem keepsGate_intakeFile (h : Gated s) (hport : s.myProcPort = true) (content : List UInt8) :
    KeepsGate (intakeFile b B content) s := by
  have hadds : Adds Silent s (s.presented b content) := by
    unfold State.presented
    split_ifs <;> exact SameAuth.adds (by constructor <;> rfl)
  have hpresented := h.silent hadds
  have hrest : KeepsGate (if content.head? = some 0 then do
        startupAuth b
        pure .wireFlush
      else if content.head? = some 112 then do
        startupPass b B true
        pure .wireFlush
      else pure .incoming : PgM σ Label) (s.presented b content) := by
    split_ifs
    · exact (keepsGate_startupAuth hpresented (hadds.port.trans hport)).bind fun _ _ h' _ => ⟨h', rfl, rfl⟩
    · exact (keepsGate_startupPass hpresented true).bind fun _ _ h' _ => ⟨h', rfl, rfl⟩
    · exact ⟨hpresented, rfl, rfl⟩
  rw [KeepsGate, wp_of_eq (intakeFile_eq content)]
  rwa [KeepsGate, hadds.port, hadds.armed] at hrest

/-- The intake keeps the gate. -/
theorem keepsGate_intake (h : Gated s) (hport : s.myProcPort = true) : KeepsGate (intake b B) s := by
  refine KeepsGate.bind (.of_silent h (adding_modify fun _ => by constructor <;> rfl))
    fun _ s₁ h₁ hport₁ => ?_
  refine KeepsGate.bind (m := get) ⟨h₁, rfl, rfl⟩ fun found s₂ h₂ hport₂ => ?_
  have hport' : s₂.myProcPort = true := by rw [hport₂, hport₁, hport]
  dsimp only
  split
  · refine KeepsGate.bind (.of_silent h₂ (adding_modify fun _ => by constructor <;> rfl))
      fun _ s₃ h₃ _ => ?_
    exact .of_silent h₃ (adding_intakeMemory _)
  split
  · refine KeepsGate.bind (.of_silent h₂ (adding_modify fun _ => by constructor <;> rfl))
      fun _ s₃ h₃ hport₃ => ?_
    exact keepsGate_intakeFile h₃ (hport₃.trans hport') _
  · refine KeepsGate.bind (.of_silent h₂ (adding_modify fun _ => by constructor <;> rfl))
      fun _ s₃ h₃ _ => ?_
    refine .of_silent h₃ (performs_ite (performs_pure _) ?_)
    generalize found.comm.strlenIO b.cmaEnd.toNat 1 = n
    exact adding_intakeMemory n

/-- A client port comes with a clear flag. -/
theorem Gated.connected (h : Gated s) : Gated (s.connected b) ∧ (s.connected b).myProcPort = true := by
  unfold State.connected
  split_ifs with hport
  · exact ⟨h, hport⟩
  have hauth : s.clientAuthInProgress = false := h.port (by simpa using hport)
  refine ⟨⟨h.wire, h.repl, fun _ => rfl, fun hup => ?_, h.kept⟩, rfl⟩
  rw [h.up hup] at hauth
  cases hauth

/-- The entry keeps the gate. -/
theorem gated_entry (h : Gated s) :
    wp (entry b B) (fun l s' => Gated s' ∧ Placed l s')
      (fun e s' => GateKept s'.trace ∧ (e = .error → Gated s')) s := by
  have hbegin : Gated s.begin := ⟨h.wire, h.repl, h.port, h.up, h.kept⟩
  rw [entry, wp_bind, wp_modify, wp_bind, wp_get]
  split_ifs
  · exact ⟨hbegin, .inr ⟨rfl, by simp, by simp⟩⟩
  obtain ⟨hconnected, hport⟩ := hbegin.connected (b := b)
  rw [wp_bind, wp_modify, wp_bind, wp_get]
  split_ifs
  · exact ⟨hconnected, .inl hport⟩
  rw [wp_bind, wp_modify]
  have hopen : Gated { s.begin.connected b with comm := (s.begin.connected b).comm.openSocketFile } :=
    ⟨hconnected.wire, hconnected.repl, hconnected.port, hconnected.up, hconnected.kept⟩
  have hrest : KeepsGate (do
      prologue b B
      intake b B : PgM σ Label)
      { s.begin.connected b with comm := (s.begin.connected b).comm.openSocketFile } :=
    KeepsGate.bind (.of_silent hopen (keeping_prologue b B).adding) fun _ _ h' hport' =>
      keepsGate_intake h' (hport'.trans hport)
  refine wp_mono hrest ?_ ?_
  · rintro l s' ⟨h', hport', -⟩
    exact ⟨h', .inl (hport'.trans hport)⟩
  · rintro e s' ⟨hkept, herror⟩
    exact ⟨hkept, fun he => (herror he).1⟩

/-! ## Every run -/

/-- What holds in a configuration. -/
def GatedAt : Config σ → Prop
  | .idle s => Gated s
  | .inside l s => Gated s ∧ Placed l s
  | .stopped _ s => GateKept s.trace

/-- In a gated configuration the gate was kept. -/
theorem GatedAt.kept {c : Config σ} (h : GatedAt c) : GateKept c.state.trace := by
  cases c with
  | idle s => exact Gated.kept h
  | inside l s => exact h.1.kept
  | stopped e s => exact h

/-- The host stays in wire mode, and no message that would be dispatched reaches the loop while a
password is awaited. -/
def KeepsOut (b : Build) (c : Config σ) (i : HostStep) : Prop :=
  (∀ state, i = .useWire state → 0 < state) ∧
    ∀ s, i = .code → c = .inside .loop s → WithholdsMessages b s

/-- One step of a run keeps the gate. -/
theorem GatedAt.step {c c' : Config σ} {i : HostStep} (h : GatedAt c) (hout : KeepsOut b c i)
    (hstep : Machine b B c i c') : GatedAt c' := by
  have hentered : ∀ {s : State σ}, Gated s → GatedAt (entered b B s) := by
    intro s h
    refine entered_spec (wp_mono (gated_entry h) (fun _ _ h' => h') ?_)
    rintro e s' ⟨hkept, herror⟩
    split_ifs with he
    · exact herror he
    · exact hkept
  cases hstep with
  | useWire state =>
      have hcalm : Gated _ := h
      rw [useWire, if_pos (hout.1 state rfl)]
      exact ⟨rfl, rfl, hcalm.port, hcalm.up, hcalm.kept⟩
  | request t packet =>
      have hcalm : Gated _ := h
      refine hentered ?_
      cases t with
      | cma => exact ⟨hcalm.wire, hcalm.repl, hcalm.port, hcalm.up, hcalm.kept⟩
      | file => exact ⟨hcalm.wire, hcalm.repl, hcalm.port, hcalm.up, hcalm.kept⟩
  | resume =>
      have hcalm : Gated _ := h
      exact hentered ⟨hcalm.wire, hcalm.repl, hcalm.port, hcalm.up, hcalm.kept⟩
  | code =>
      obtain ⟨hgated, hplaced⟩ := h
      refine continued_spec (wp_mono (gated_step hgated hplaced fun hl => ?_) ?_ ?_)
      · subst hl
        exact hout.2 _ rfl rfl
      · rintro next s' ⟨h', hnext⟩
        cases next with
        | none => exact h'
        | some l' => exact ⟨h', hnext l' rfl⟩
      · rintro e s' ⟨hkept, herror⟩
        split_ifs with he
        · exact herror he
        · exact hkept

/-- The backend in wire mode before the first call. -/
def wireBoot (db : σ) : Config σ := .idle (useWire 1 (State.boot db))

/-- **The authentication gate**: in every run in wire mode in which no message that would be dispatched
reaches the loop while a password is awaited, none is dispatched and no ReadyForQuery is put between the
request for a password and its acceptance. -/
theorem gate_kept (db : σ) {is : List HostStep} {c : Config σ}
    (hrun : Reaches (Machine b B) (wireBoot db) is c)
    (hout : Guarded (Machine b B) (KeepsOut b) (wireBoot db) is) : GateKept c.state.trace := by
  have hinit : GatedAt (wireBoot db) :=
    ⟨rfl, rfl, fun _ => rfl, (fun hup => by cases hup), gateKept_nil⟩
  exact (hrun.inv (I := fun _ c => GatedAt c) hinit (fun _ _ _ _ h hout hstep => h.step hout hstep) hout).kept

/-! ## Two runs -/

/-- A check that the gate is kept: at the loop the flag is clear, or the packet begins as a startup or a
password packet. -/
def staysOut : Config σ → HostStep → Bool
  | _, .useWire state => decide (0 < state)
  | .inside .loop s, .code =>
      !s.clientAuthInProgress || s.peek == some 0 || s.peek == some 112
  | _, _ => true

/-- The check on a step of a run is enough for the guard. -/
theorem keepsOut_of_staysOut {c : Config σ} {i : HostStep} (h : staysOut c i = true) : KeepsOut b c i := by
  constructor
  · rintro state rfl
    exact of_decide_eq_true h
  · rintro s rfl rfl hauth _ hzero hpass
    simp [staysOut, hauth, hzero, hpass] at h

/-- A startup packet, and the password `abc`. -/
def loginSteps : List HostStep :=
  .request .cma [0, 0, 0, 8, 0, 3, 0, 0] :: List.replicate 5 .code ++
    .request .cma [112, 0, 0, 0, 8, 97, 98, 99, 0] :: List.replicate 5 .code

/-- A client that logs in keeps the gate. -/
theorem gate_kept_login : ∃ c,
    Reaches (Machine .emscripten .silent) (wireBoot ()) loginSteps c ∧ GateKept c.state.trace := by
  have hsome : ((wireBoot ()).runs .emscripten .silent staysOut loginSteps).isSome = true := by decide +kernel
  obtain ⟨c, hc⟩ := Option.isSome_iff_exists.mp hsome
  obtain ⟨hrun, hguard⟩ := reaches_of_runs _ _ hc
  exact ⟨c, hrun, gate_kept () hrun (hguard.mono fun _ _ => keepsOut_of_staysOut)⟩

/-- A startup packet, and a Query in place of the password. -/
def intruderSteps : List HostStep :=
  .request .cma [0, 0, 0, 8, 0, 3, 0, 0] :: List.replicate 5 .code ++
    [.request .cma [81, 0, 0, 0, 5, 0], .code, .code]

/-- What happens before the Query is dispatched. -/
def intruderEvents : List Event :=
  [.sigsetjmp, .raising .startupAuth, passwordRequest, .wireFlush, .sigsetjmp, .raising .socketBackend,
    .raising .messageSwitch]

/-- The Query is dispatched. -/
theorem gate_passed : ∃ c,
    Reaches (Machine .emscripten .silent) (wireBoot ()) intruderSteps c ∧ ¬GateKept c.state.trace := by
  have htrace : ((wireBoot ()).runs .emscripten .silent (fun _ _ => true) intruderSteps).map
      (fun c => c.state.trace) = some (intruderEvents ++ [.dispatch .query [0]]) := by decide +kernel
  obtain ⟨c, hc, htrace⟩ := Option.map_eq_some_iff.mp htrace
  obtain ⟨hrun, -⟩ := reaches_of_runs _ _ hc
  refine ⟨c, hrun, fun hkept => ?_⟩
  have hunserved : (Event.dispatch .query [0]).serves = false :=
    hkept intruderEvents _ (htrace ▸ List.prefix_rfl) (by decide)
  cases hunserved

end PgliteBuild
