import PgliteBuild.InteractiveOne.ArmedHandler
import PgliteBuild.InteractiveOne.Events
import PgliteBuild.InteractiveOne.Machine

/-! # What puts the backend into skip mode

`clear_error` sets `ignore_till_sync` when `doing_extended_query_message` is set. `SocketBackend` sets
that flag for the message that it reads, and nothing clears it when the message is done: `interactive_file`
does so before it idles, `interactive_one` does not. Skip mode begins for cause in every run in which no
error is raised outside an extended-query message while the flag is left over. -/

namespace PgliteBuild

open Effect Runs

variable {σ α : Type} {b : Build} {B : Backend σ} {s s' s'' : State σ} {l : Label} {P : Event → Prop}

/-! ## The law -/

/-- What this step did last is the dispatch of an extended-query message. -/
def InExtended (s s' : State σ) : Prop :=
  ∃ before m body behind, s'.trace = s.trace ++ (before ++ .dispatch m body :: behind) ∧
    m.extended = true ∧ ∀ op, .raising op ∉ behind

/-- Skip mode begins only in an extended-query message. -/
def SkipCaused (s s' : State σ) : Prop :=
  s.ignoreTillSync = false → s'.ignoreTillSync = true → InExtended s s'

/-- An operation outside the extended-query messages raises an error: the password check in the loop, a
statement of the repl, or the end of the reply. -/
def RaisesOutside (b : Build) (B : Backend σ) : Label → State σ → Prop
  | .loop, s =>
      if s.isWire then s.peek = some 112 ∧ ∃ s', startupPass b B true s.round = .error .error s'
      else ∃ s', protoSwitch b B (some .query) { s.round with inBuf := s.round.inBuf ++ [0] } =
        .error .error s'
  | .wireFlush, s => ∃ s', wireFlush b B s = .error .error s'
  | .incoming, _ | .resumeOnError, _ | .returnEarly, _ => False

/-- With the handler set, no error is raised outside the extended-query messages while
`doing_extended_query_message` is left over. -/
def FlagFresh (b : Build) (B : Backend σ) (l : Label) (s : State σ) : Prop :=
  s.armed = true → s.doingExtendedQueryMessage = true → s.ignoreTillSync = false →
    ¬RaisesOutside b B l s

/-! ## Code that does not begin to skip -/

/-- Skip mode does not begin. -/
def Calm (s s' : State σ) : Prop := s'.ignoreTillSync = true → s.ignoreTillSync = true

/-- A step that keeps the skip flags turns none on. -/
theorem Still.calm (h : Still P s s') : Calm s s' := fun hignore => h.ignore.symm.trans hignore

/-- Code that keeps the skip flags turns none on. -/
theorem Keeping.calm {m : PgM σ α} (h : Keeping P m) : Performs Calm m := Performs.mono h fun _ _ => Still.calm

/-- The steps of calm code make one calm step. -/
theorem calm_spec {m : PgM σ α} (h : Performs Calm m) (s : State σ) :
    wp m (fun _ => Calm s) (fun _ => Calm s) s :=
  h.keeps (fun _ _ hs hstep hignore => hs (hstep hignore)) (fun hignore => hignore)

/-- An assignment that does not turn the skip flag on is calm. -/
theorem calm_modify {f : State σ → State σ} (hf : ∀ s, Calm s (f s)) :
    Performs Calm (modify f : PgM σ Unit) := performs_modify hf

section Startup

/-- The kind of every event. -/
def AnyEvent (_ : Event) : Prop := True

/-- Noting an event is calm. -/
theorem calm_record (e : Event) : Performs Calm (record e : PgM σ Unit) :=
  (keeping_record (P := AnyEvent) trivial).calm

/-- Putting a protocol message is calm. -/
theorem calm_putmessage (source : Source) (msgtype : UInt8) (body : List UInt8) :
    Performs Calm (putmessage source msgtype body : PgM σ Unit) :=
  (keeping_putmessage (P := AnyEvent) (fun _ => trivial) _ _).calm

/-- `startup_auth` is calm. -/
theorem calm_startupAuth : Performs Calm (startupAuth b : PgM σ Unit) := by
  refine performs_bind (calm_record _) fun _ => ?_
  refine performs_bind (calm_modify fun _ h => h) fun _ => performs_bind (calm_modify fun _ h => h) fun _ => ?_
  refine performs_bind (keeping_discardInput b (P := AnyEvent)).calm fun _ => ?_
  refine performs_bind (calm_modify fun _ h => h) fun _ => performs_bind (calm_putmessage _ _ _) fun _ => ?_
  exact (keeping_liftComm (P := AnyEvent) _).calm

/-- What `startup_pass` does behind the check. -/
theorem calm_accept : Performs Calm (do
    modify fun s => { s with clientAuthInProgress := false }
    putmessage .auth 82 (Framing.word32 0)
    putmessages .auth 83 (B.gucReport (← get).db)
    putmessage .auth 75 B.backendKey
    modify fun s => { s with sendReadyForQuery := true, ignoreTillSync := false } : PgM σ Unit) := by
  refine performs_bind (calm_modify fun _ h => h) fun _ => performs_bind (calm_putmessage _ _ _) fun _ => ?_
  refine performs_bind performs_get fun s => ?_
  refine performs_bind (keeping_putmessages (P := AnyEvent) (fun _ => trivial) _ _).calm fun _ => ?_
  exact performs_bind (calm_putmessage _ _ _) fun _ => calm_modify fun _ h => by cases h

/-- `startup_pass` is calm. -/
theorem calm_startupPass (check : Bool) : Performs Calm (startupPass b B check) := by
  refine performs_bind (calm_record _) fun _ => ?_
  dsimp only
  split
  · refine performs_bind (keeping_recvPasswordPacket b (P := AnyEvent)).calm fun passwd => ?_
    cases passwd with
    | none => exact performs_bind (performs_throw _) fun _ => calm_accept
    | some body => exact calm_accept
  · exact performs_bind (keeping_discardInput b (P := AnyEvent)).calm fun _ => calm_accept

/-- The end of a session is calm. -/
theorem calm_closeConnection : Performs Calm (closeConnection : PgM σ Unit) :=
  calm_modify fun _ h => by cases h

/-- An error of `startup_pass` is one of the password check. -/
theorem startupPass_error (s : State σ) :
    wp (startupPass b B true) (fun _ _ => True) (fun e s' => e = .error → Still AnyEvent s s') s := by
  have hraising : Still AnyEvent s { s with trace := s.trace ++ [.raising .startupPass] } :=
    ⟨⟨⟨[.raising .startupPass], rfl, fun _ _ => trivial⟩, rfl, rfl, id, rfl, rfl⟩, rfl, rfl⟩
  rw [startupPass, wp_bind, wp_record]
  simp only [if_true]
  rw [wp_bind]
  refine wp_mono ((keeping_recvPasswordPacket b).spec _) ?_ fun _ _ h _ => hraising.trans h
  rintro passwd s₁ -
  cases passwd with
  | none => rintro ⟨⟩
  | some body => exact wp_mono (throws_accept s₁) (fun _ _ _ => trivial) fun e _ he herror => absurd herror he

end Startup

/-! ## Messages -/

/-- An operation that can raise an error does not start. -/
def Underway (e : Event) : Prop := ∀ op, e ≠ .raising op

/-- What this step did last is the dispatch of the given message, for which the flag is not touched. -/
structure Dispatched (m : FrontendMsg) (s s' : State σ) : Prop where
  trace : ∃ body behind, s'.trace = s.trace ++ (.raising .messageSwitch :: .dispatch m body :: behind) ∧
    ∀ op, .raising op ∉ behind
  extended : s'.doingExtendedQueryMessage = s.doingExtendedQueryMessage
  armed : s'.armed = s.armed

/-- The switch does not begin to skip, and its errors are those of the message. -/
theorem protoSwitch_error (m : FrontendMsg) (s : State σ) :
    wp (protoSwitch b B (some m)) (fun _ => Calm s)
      (fun e s' => Calm s s' ∧ (e = .error → Dispatched m s s')) s := by
  by_cases hm : m = .terminate
  · -- the end of the session leaves skip mode
    subst hm
    have hcalm : Performs Calm (protoSwitch b B (some .terminate)) := by
      refine performs_bind (calm_record _) fun _ => performs_bind performs_get fun s => ?_
      exact performs_bind (calm_record _) fun _ => performs_bind calm_closeConnection fun _ => performs_pure _
    refine wp_mono (wp_and (calm_spec hcalm s) (throws_terminate s)) (fun _ _ h => h.1) ?_
    rintro e s' ⟨hs', he⟩
    exact ⟨hs', fun herror => absurd herror he⟩
  have hput : ∀ bytes, Underway (.put .message bytes) := fun _ _ => by simp
  obtain ⟨rest, hrest, hswitch⟩ := protoSwitch_some b B hput hm
  rw [hswitch, wp_bind, wp_record, wp_bind, wp_get, wp_bind, wp_record]
  refine wp_mono ((hrest _).spec _) (fun _ _ h => h.calm) ?_
  intro e s' h
  refine ⟨h.calm, fun _ => ⟨?_, h.extended, h.armed⟩⟩
  obtain ⟨new, htrace, hnew⟩ := h.trace
  refine ⟨s.inBuf, new, ?_, fun op hop => hnew _ hop op rfl⟩
  rw [htrace, List.append_assoc, List.append_assoc]
  rfl

/-- Acting on a message raises the errors of its dispatch only. -/
theorem actOn_error (m : FrontendMsg) (s : State σ) :
    wp (actOn b B (some m)) (fun _ => Calm s) (fun e s' => Calm s s' ∧ (e = .error →
      protoSwitch b B (some m) s = .error .error s' ∧ Dispatched m s s')) s := by
  rw [actOn, wp_bind, wp_get]
  split_ifs
  · exact id
  rw [wp_bind]
  refine wp_mono (wp_and (wp_self _ s) (protoSwitch_error m s)) ?_ ?_
  · rintro shortcut s₁ ⟨-, h₁⟩
    cases shortcut with
    | true => exact h₁
    | false =>
        refine (wp_bind (betweenMessages B) _ _ _ s₁).mpr ?_
        refine wp_mono (wp_and ((keeping_betweenMessages B).spec s₁) (throws_betweenMessages s₁)) ?_ ?_
        · rintro _ s₂ ⟨h₂, -⟩
          exact fun hignore => h₁ (h₂.calm hignore)
        · rintro e s₂ ⟨h₂, he⟩
          exact ⟨fun hignore => h₁ (h₂.calm hignore), fun herror => absurd herror he⟩
  · rintro e s₁ ⟨hself, h₁, herror⟩
    refine ⟨h₁, fun he => ?_⟩
    subst he
    exact ⟨hself, herror rfl⟩

/-! ## The code at a label -/

/-- An error that the handler would take to begin skip mode is one of an extended-query message. -/
def RaisedInExtended (s s' : State σ) : Prop :=
  s'.armed = true → s'.doingExtendedQueryMessage = true → s.ignoreTillSync = false → InExtended s s'

/-- Code does not begin to skip, and the errors that it raises would only do so for cause. -/
def KeepsCause (m : PgM σ α) (s : State σ) : Prop :=
  wp m (fun _ => Calm s) (fun e s' => Calm s s' ∧ (e = .error → RaisedInExtended s s')) s

/-- Calm code that raises no error needs no cause. -/
theorem KeepsCause.of_throws {m : PgM σ α} (hcalm : Performs Calm m) (hm : Throws (· ≠ .error) m)
    (s : State σ) : KeepsCause m s := by
  refine wp_mono (wp_and (calm_spec hcalm s) (hm s)) (fun _ _ h => h.1) ?_
  rintro e s' ⟨hs', he⟩
  exact ⟨hs', fun herror => absurd herror he⟩

/-- Code behind which nothing is done. -/
theorem KeepsCause.map {β : Type} {m : PgM σ α} {f : α → β} (h : KeepsCause m s) :
    KeepsCause (do
      let a ← m
      pure (f a)) s := by
  rw [KeepsCause, wp_bind]
  exact h

/-- `SocketBackend` turns the skip flag off at most. -/
theorem calm_socketBackend : Performs Calm (socketBackend b B) := by
  refine performs_bind (calm_record _) fun _ => performs_bind
    (keeping_liftComm (P := AnyEvent) _).calm fun _ => ?_
  refine performs_bind (keeping_liftRecv (P := AnyEvent) _).calm fun x => ?_
  cases x with
  | none =>
      refine performs_bind performs_get fun s => ?_
      dsimp only
      split
      · exact performs_bind (calm_modify fun _ h => h) fun _ => performs_pure _
      · exact performs_pure _
  | some t =>
      dsimp only
      cases FrontendMsg.ofCode t with
      | none => exact performs_throw _
      | some m =>
          refine performs_bind (calm_modify fun _ h => (Bool.and_eq_true_iff.mp h).1) fun _ => ?_
          refine performs_bind (keeping_liftRecv (P := AnyEvent) _).calm fun body => ?_
          cases body with
          | none => exact performs_pure _
          | some body => exact performs_bind (calm_modify fun _ h => h) fun _ => performs_pure _

/-- What `SocketBackend` handed over is acted on in a message of its kind. -/
theorem keepsCause_received {m : FrontendMsg} {new : List Event} (htrace : s'.trace = s.trace ++ new)
    (hcalm : Calm s s') (hextended : s'.doingExtendedQueryMessage = m.extended) :
    wp (actOn b B (some m)) (fun _ => Calm s) (fun e s'' => Calm s s'' ∧ (e = .error → RaisedInExtended s s''))
      s' := by
  refine wp_mono (actOn_error m s') (fun _ _ h hignore => hcalm (h hignore)) ?_
  rintro e s'' ⟨h, herror⟩
  refine ⟨fun hignore => hcalm (h hignore), fun he _ hflag _ => ?_⟩
  obtain ⟨-, hdispatched⟩ := herror he
  obtain ⟨body, behind, hdone, hquiet⟩ := hdispatched.trace
  refine ⟨new ++ [.raising .messageSwitch], m, body, behind, ?_, ?_, hquiet⟩
  · rw [hdone, htrace]
    simp
  · rw [← hextended, ← hdispatched.extended]
    exact hflag

/-- A message from the connection. -/
theorem keepsCause_wire (hwire : s.isWire = true) :
    KeepsCause (do
      let firstchar ← nextMessage b B
      actOn b B firstchar) s := by
  rw [KeepsCause, wp_bind, nextMessage, wp_bind, wp_get, if_pos hwire, wp_bind]
  have hbackend := wp_and (calm_spec (calm_socketBackend (b := b) (B := B)) s)
    (wp_and ((adding_socketBackend b B).spec s) (socketBackend_nextMessage b B s))
  refine wp_mono hbackend ?_ ?_
  · rintro firstchar s₁ ⟨hcalm, hadds, hmessage⟩
    rw [wp_bind, wp_modify, wp_pure]
    cases firstchar with
    | none =>
        -- at the end of the input the session is closed, and nothing is skipped any more
        have hcond : ¬(s₁.ignoreTillSync && (none : Option FrontendMsg).any (· ≠ .sync)) = true := by simp
        rw [actOn, wp_bind, wp_get, if_neg hcond]
        exact fun hignore => by cases hignore
    | some m =>
        obtain ⟨new, htrace, -⟩ := hadds.trace
        exact keepsCause_received htrace hcalm (hmessage m rfl).2.2
  · rintro e s₁ ⟨hcalm, -, he⟩
    exact ⟨hcalm, fun herror => absurd herror he⟩

/-- A statement of the repl. -/
theorem keepsCause_repl (hwire : s.isWire = false)
    (hfresh : s.armed = true → s.doingExtendedQueryMessage = true → s.ignoreTillSync = false →
      ¬∃ s', protoSwitch b B (some .query) { s with inBuf := s.inBuf ++ [0] } = .error .error s') :
    KeepsCause (do
      let firstchar ← nextMessage b B
      actOn b B firstchar) s := by
  rw [KeepsCause, wp_bind, nextMessage, wp_bind, wp_get, if_neg (by simp [hwire]), wp_bind, wp_modify, wp_pure]
  refine wp_mono (actOn_error .query _) (fun _ _ h => h) ?_
  rintro e s' ⟨h, herror⟩
  refine ⟨h, fun he harmed hflag hignore => ?_⟩
  obtain ⟨hraised, hdispatched⟩ := herror he
  have harmed' : s.armed = true := hdispatched.armed ▸ harmed
  have hflag' : s.doingExtendedQueryMessage = true := hdispatched.extended ▸ hflag
  exact absurd ⟨s', hraised⟩ (hfresh harmed' hflag' hignore)

/-- The first lines of a round touch neither the skip flags nor the history. -/
theorem still_round (s : State σ) : Still P s s.round ∧ s.round.peek = s.peek := by
  unfold State.round
  split_ifs
  · exact ⟨SameMode.still (by constructor <;> rfl), rfl⟩
  · exact ⟨Still.refl _ _, rfl⟩

/-- One round of the loop. -/
theorem keepsCause_loopRound (hfresh : FlagFresh b B .loop s) : KeepsCause (loopRound b B) s := by
  obtain ⟨hstill, hpeek⟩ := still_round (P := AnyEvent) s
  obtain ⟨new, hnew, -⟩ := hstill.trace
  have hround : KeepsCause (if s.isWire && s.peek = some 0 then do
        startupAuth b
        pure .resumeOnError
      else if s.isWire && s.peek = some 112 then do
        startupPass b B true
        pure .resumeOnError
      else do
        let firstchar ← nextMessage b B
        actOn b B firstchar : PgM σ Label) s.round := by
    split_ifs with hzero hpass
    · exact (KeepsCause.of_throws calm_startupAuth throws_startupAuth _).map
    · refine KeepsCause.map ?_
      obtain ⟨hwire, hpass⟩ : s.isWire = true ∧ s.peek = some 112 := by simpa using hpass
      refine wp_mono (wp_and (wp_self _ _) (wp_and (calm_spec (calm_startupPass true) s.round)
        (startupPass_error s.round))) (fun _ _ h => h.2.1) ?_
      rintro e s' ⟨hself, hcalm, herror⟩
      refine ⟨hcalm, fun he harmed hflag hignore => ?_⟩
      have hkept := herror he
      subst he
      -- the password check is outside every message, so its error must not find the flag
      have hraises : RaisesOutside b B .loop s := by
        rw [RaisesOutside, if_pos hwire]
        exact ⟨hpass, s', hself⟩
      refine absurd hraises (hfresh ?_ ?_ ?_)
      · rw [← hstill.armed, ← hkept.armed, harmed]
      · rw [← hstill.extended, ← hkept.extended, hflag]
      · rw [← hstill.ignore, hignore]
    · rcases Bool.eq_false_or_eq_true s.isWire with hwire | hwire
      · exact keepsCause_wire (hstill.wire.trans hwire)
      · refine keepsCause_repl (hstill.wire.trans hwire) fun harmed hflag hignore hraised => ?_
        have hraises : RaisesOutside b B .loop s := by
          rw [RaisesOutside, if_neg (by simp [hwire])]
          exact hraised
        exact hfresh (hstill.armed ▸ harmed) (hstill.extended ▸ hflag) (hstill.ignore ▸ hignore) hraises
  rw [KeepsCause, wp_of_eq (loopRound_eq b B s)]
  refine wp_mono hround (fun _ _ h hignore => hstill.calm (h hignore)) ?_
  rintro e s' ⟨hcalm, herror⟩
  refine ⟨fun hignore => hstill.calm (hcalm hignore), fun he harmed hflag hignore => ?_⟩
  obtain ⟨before, m, body, behind, htrace, hm, hquiet⟩ := herror he harmed hflag (hstill.ignore.trans hignore)
  refine ⟨new ++ before, m, body, behind, ?_, hm, hquiet⟩
  rw [htrace, hnew, List.append_assoc, List.append_assoc]

/-- The end of the reply. -/
theorem keepsCause_wireFlush (hfresh : FlagFresh b B .wireFlush s) : KeepsCause (wireFlush b B) s := by
  have hflush : Keeping AnyEvent (wireFlush b B) :=
    performs_bind (keeping_record trivial) fun _ =>
      performs_bind (keeping_finishReply b B (fun _ => trivial) fun _ _ _ => trivial) fun _ =>
        keeping_handOver trivial
  refine wp_mono (wp_and (wp_self _ s) (hflush.spec s)) (fun _ _ h => h.2.calm) ?_
  rintro e s' ⟨hself, hstill⟩
  refine ⟨hstill.calm, fun he harmed hflag hignore => ?_⟩
  subst he
  exact absurd ⟨s', hself⟩ (hfresh (hstill.armed ▸ harmed) (hstill.extended ▸ hflag) hignore)

/-- With a fresh flag the code at a label turns the skip flag on for a cause only. -/
theorem keepsCause_block (hfresh : FlagFresh b B l s) : KeepsCause (block b B l) s := by
  cases l with
  | incoming =>
      rw [block]
      split_ifs
      · exact id
      · exact id
  | loop =>
      rw [KeepsCause, block, wp_bind, wp_get]
      split_ifs
      · exact (keepsCause_loopRound hfresh).map
      · exact id
  | resumeOnError =>
      rw [KeepsCause, block, wp_bind, wp_get]
      split_ifs
      · exact id
      · exact id
  | wireFlush => exact (keepsCause_wireFlush hfresh).map
  | returnEarly => exact id

/-! ## The handler -/

/-- The handler begins to skip only with `doing_extended_query_message` set. -/
theorem handler_ignore (s : State σ) :
    wp (handler b B) (fun _ s' => s'.ignoreTillSync = true → s.ignoreTillSync = true ∨
        s.doingExtendedQueryMessage = true)
      (fun _ s' => s'.ignoreTillSync = true → s.ignoreTillSync = true ∨ s.doingExtendedQueryMessage = true)
      s := by
  -- with the flag set there is nothing to show; with it clear no line sets `ignore_till_sync`
  rcases Bool.eq_false_or_eq_true s.doingExtendedQueryMessage with hflag | hflag
  · exact wp_mono (wp_true _ s) (fun _ _ _ _ => .inr hflag) fun _ _ _ _ => .inr hflag
  have hrest : Performs Calm (do
      if (← get).comm.pqCommReadingMsg then throw (.fatal syncLost)
      if !(← get).ignoreTillSync then
        modify fun s => { s with sendReadyForQuery := true } : PgM σ Unit) := by
    have hlast : Performs Calm (do
        if !(← get).ignoreTillSync then
          modify fun s => { s with sendReadyForQuery := true } : PgM σ Unit) :=
      performs_bind performs_get fun s =>
        performs_ite (calm_modify fun _ h => h) (performs_pure _)
    refine performs_bind performs_get fun s => ?_
    dsimp only
    split
    · exact performs_bind (performs_throw _) fun _ => hlast
    · exact hlast
  have hclear : ∀ s₀ : State σ, s₀.doingExtendedQueryMessage = false →
      wp (clearError B) (fun _ => Calm s₀) (fun _ => Calm s₀) s₀ := by
    intro s₀ hflag
    rw [clearError, wp_bind]
    refine wp_mono ((keeping_emitErrorReport (P := AnyEvent) B fun _ => trivial).spec s₀) ?_
      fun _ _ h => h.calm
    intro _ s₁ h₁
    have hcond : ¬{ s₁ with db := B.abortTransaction s₁.db }.doingExtendedQueryMessage = true := by
      show ¬s₁.doingExtendedQueryMessage = true
      simp [h₁.extended, hflag]
    rw [wp_bind, wp_modify, wp_bind, wp_get]
    dsimp only
    rw [if_neg hcond]
    exact wp_mono (calm_spec hrest _) (fun _ _ h hignore => h₁.calm (h hignore)) fun _ _ h hignore =>
      h₁.calm (h hignore)
  have htail : Performs Calm (do
      if 0 < (← get).comm.pqBufferRemainingData then
        if 8 < (← get).canaryEx then throw .abort
        modify fun s => { s with canaryEx := s.canaryEx + 1 }
        pure .incoming
      else pure .wireFlush : PgM σ Label) := by
    have hincoming : Performs Calm (do
        modify fun s => { s with canaryEx := s.canaryEx + 1 }
        pure .incoming : PgM σ Label) :=
      performs_bind (calm_modify fun _ h => h) fun _ => performs_pure _
    refine performs_bind performs_get fun s => performs_ite ?_ (performs_pure _)
    refine performs_bind performs_get fun s => ?_
    dsimp only
    split
    · exact performs_bind (performs_throw _) fun _ => hincoming
    · exact hincoming
  rw [handler, wp_bind, wp_modify, wp_bind]
  refine wp_mono (hclear _ hflag) ?_ fun _ _ h hignore => .inl (h hignore)
  intro _ s₁ h₁
  exact wp_mono (calm_spec htail s₁) (fun _ _ h hignore => .inl (h₁ (h hignore))) fun _ _ h hignore =>
    .inl (h₁ (h hignore))

/-- What the handler does belongs to the error it handles. -/
theorem skipCaused_handler (hcalm : Calm s s') (hraised : RaisedInExtended s s') (harmed : s'.armed = true) :
    wp (handler b B) (fun _ => SkipCaused s) (fun _ => SkipCaused s) s' := by
  have hcause : ∀ s'' : State σ, (s''.ignoreTillSync = true → s'.ignoreTillSync = true ∨
      s'.doingExtendedQueryMessage = true) → Adds Underway s' s'' → SkipCaused s s'' := by
    intro s'' hskip hadds hbefore hafter
    have hflag : s'.doingExtendedQueryMessage = true := by
      rcases hskip hafter with hignore | hflag
      · rw [hcalm hignore] at hbefore
        cases hbefore
      · exact hflag
    obtain ⟨before, m, body, behind, htrace, hm, hquiet⟩ := hraised harmed hflag hbefore
    obtain ⟨new, hnew, hunderway⟩ := hadds.trace
    refine ⟨before, m, body, behind ++ new, ?_, hm, fun op hop => ?_⟩
    · rw [hnew, htrace]
      simp
    · rcases List.mem_append.mp hop with hop | hop
      · exact hquiet op hop
      · exact hunderway _ hop op rfl
  have hputs : ∀ bytes, Underway (.put .error bytes) := fun _ _ => by simp
  have hboth := wp_and (handler_ignore (b := b) (B := B) s') ((adding_handler b B hputs).spec s')
  exact wp_mono hboth (fun _ s'' h => hcause s'' h.1 h.2) fun _ s'' h => hcause s'' h.1 h.2

/-- A calm step needs no cause. -/
theorem Calm.caused (h : Calm s s') : SkipCaused s s' := by
  intro hbefore hafter
  rw [h hafter] at hbefore
  cases hbefore

/-- **Step lemma**: the code at a label begins to skip only for cause. -/
theorem skipCaused_step (hfresh : FlagFresh b B l s) :
    wp (step b B l) (fun _ => SkipCaused s) (fun _ => SkipCaused s) s := by
  rw [wp_step]
  refine wp_mono (keepsCause_block hfresh) (fun _ _ h => h.caused) ?_
  rintro e s' ⟨hcalm, herror⟩
  split_ifs with hhandled
  · exact skipCaused_handler hcalm (herror hhandled.1) hhandled.2
  · exact hcalm.caused

/-! ## The entry of a call -/

/-- The intake of a packet in the memory area is calm. -/
theorem calm_intakeMemory (n : ℕ) : Performs Calm (intakeMemory n : PgM σ Label) := by
  refine performs_bind (calm_modify fun _ h => h) fun _ => performs_ite ?_ (performs_pure _)
  refine performs_bind performs_get fun s => ?_
  dsimp only
  split
  · exact performs_bind (calm_record _) fun _ => performs_pure _
  · exact performs_pure _

/-- The intake of a packet in the socket file is calm. -/
theorem calm_intakeFile (content : List UInt8) : Performs Calm (intakeFile b B content) := by
  have hrest : Performs Calm (do
      if (← get).peek = some 0 then
        startupAuth b
        pure .wireFlush
      else if (← get).peek = some 112 then
        startupPass b B true
        pure .wireFlush
      else pure .incoming : PgM σ Label) := by
    refine performs_bind performs_get fun s => performs_ite ?_ ?_
    · exact performs_bind calm_startupAuth fun _ => performs_pure _
    · refine performs_bind performs_get fun s => performs_ite ?_ (performs_pure _)
      exact performs_bind (calm_startupPass true) fun _ => performs_pure _
  refine performs_bind (calm_modify fun _ h => h) fun _ => performs_bind performs_get fun s => ?_
  refine performs_bind performs_get fun s' => ?_
  dsimp only
  split
  · exact performs_bind (calm_modify fun _ h => h) fun _ => hrest
  · exact performs_bind (calm_modify fun _ h => h) fun _ => hrest

/-- The intake is calm. -/
theorem calm_intake : Performs Calm (intake b B) := by
  refine performs_bind (calm_modify fun _ h => h) fun _ => performs_bind performs_get fun s => ?_
  refine performs_ite (performs_bind (calm_modify fun _ h => h) fun _ => calm_intakeMemory _) ?_
  split
  · exact performs_bind (calm_modify fun _ h => h) fun _ => calm_intakeFile _
  · refine performs_bind (calm_modify fun _ h => h) fun _ => performs_ite (performs_pure _) ?_
    generalize s.comm.strlenIO b.cmaEnd.toNat 1 = n
    exact calm_intakeMemory n

/-- The entry of a call does not begin to skip. -/
theorem calm_entry : Performs Calm (entry b B) := by
  have hconnected : Performs Calm (modify (State.connected b) : PgM σ Unit) := by
    refine calm_modify fun s h => ?_
    unfold State.connected at h
    split_ifs at h
    · exact h
    · exact h
  refine performs_bind (calm_modify fun _ h => h) fun _ => performs_bind performs_get fun s => ?_
  refine performs_ite (performs_pure _) ?_
  refine performs_bind hconnected fun _ => performs_bind performs_get fun s => ?_
  refine performs_ite (performs_pure _) ?_
  refine performs_bind (calm_modify fun _ h => h) fun _ => ?_
  exact performs_bind (keeping_prologue b B).calm fun _ => calm_intake

/-! ## Every run -/

/-- In a call, no error is raised outside the extended-query messages while
`doing_extended_query_message` is left over. -/
def RunsFresh (b : Build) (B : Backend σ) (c : Config σ) (i : HostStep) : Prop :=
  ∀ l s, i = .code → c = .inside l s → FlagFresh b B l s

/-- One step of a run begins to skip only for cause. -/
theorem skipCaused_machine {c c' : Config σ} {i : HostStep} (hfresh : RunsFresh b B c i)
    (hstep : Machine b B c i c') : SkipCaused c.state c'.state := by
  have hentered : ∀ {s s₀ : State σ}, s₀.ignoreTillSync = s.ignoreTillSync →
      SkipCaused s (entered b B s₀).state := by
    intro s s₀ hsame
    refine entered_spec (P := fun c => SkipCaused s c.state) ?_
    have hcaused : ∀ s', Calm s₀ s' → SkipCaused s s' := fun s' h =>
      Calm.caused fun hignore => hsame ▸ h hignore
    refine wp_mono (calm_spec calm_entry s₀) (fun _ s' h => hcaused s' h) ?_
    intro e s' h
    split_ifs
    · exact hcaused s' h
    · exact hcaused s' h
  cases hstep with
  | useWire state =>
      refine Calm.caused fun h => ?_
      unfold Config.state useWire at h
      split_ifs at h
      · exact h
      · exact h
  | request t packet =>
      refine hentered ?_
      cases t <;> rfl
  | resume => exact hentered rfl
  | @code l s =>
      refine continued_spec (P := fun c => SkipCaused s c.state) ?_
      refine wp_mono (skipCaused_step (hfresh l s rfl rfl)) ?_ ?_
      · intro next s' h
        cases next with
        | none => exact h
        | some l' => exact h
      · intro e s' h
        split_ifs
        · exact h
        · exact h

/-- **Skip mode has one cause**: in every run in which no error is raised outside the extended-query
messages while `doing_extended_query_message` is left over, each step that begins to skip is the failed
dispatch of an extended-query message. -/
theorem skip_caused (db : σ) {is pre : List HostStep} {i : HostStep} {c c' : Config σ}
    (hfresh : Guarded (Machine b B) (RunsFresh b B) (.idle (State.boot db)) is) (hpre : pre ++ [i] <+: is)
    (hrun : Reaches (Machine b B) (.idle (State.boot db)) pre c) (hstep : Machine b B c i c') :
    SkipCaused c.state c'.state :=
  skipCaused_machine (hfresh pre i hpre c hrun) hstep

/-! ## Two runs -/

/-- A check that no error finds the flag left over. -/
def staysFresh : Config σ → HostStep → Bool
  | .inside _ s, .code => !s.armed || !s.doingExtendedQueryMessage || s.ignoreTillSync
  | _, _ => true

/-- The check on a step of a run is enough for the guard. -/
theorem runsFresh_of_staysFresh {c : Config σ} {i : HostStep} (h : staysFresh c i = true) :
    RunsFresh b B c i := by
  rintro l s rfl rfl harmed hflag hignore
  simp [staysFresh, harmed, hflag, hignore] at h

/-- A backend that fails on one kind of message. -/
def failing (bad : FrontendMsg) : Backend Unit :=
  .stateless fun m _ => ([], if m = bad then some ⟨.other, "syntax error"⟩ else none)

/-- A Parse in wire mode, up to its dispatch. -/
def parseSteps : List HostStep := [.useWire 1, .request .cma [80, 0, 0, 0, 4], .code]

/-- Where a run is before and after its last step. -/
def Config.lastStep (b : Build) (B : Backend σ) (steps : List HostStep) (c : Config σ) :
    Option (Config σ × Config σ) :=
  (c.runs b B (fun _ _ => true) steps).bind fun d => (d.next b B .code).map fun d' => (d, d')

/-- A run that is computed with its last step is a run of the machine. -/
theorem reaches_of_lastStep {steps : List HostStep} {c d d' : Config σ}
    (h : c.lastStep b B steps = some (d, d')) :
    Reaches (Machine b B) c steps d ∧ Machine b B d .code d' := by
  obtain ⟨e, he, hnext⟩ := Option.bind_eq_some_iff.mp h
  obtain ⟨e', he', hpair⟩ := Option.map_eq_some_iff.mp hnext
  obtain ⟨rfl, rfl⟩ := Prod.mk.inj hpair
  exact ⟨(reaches_of_runs b B he).1, (machine_iff b B).mpr he'⟩

/-- A Parse that fails turns the skip flag on, and it is the cause. -/
theorem skip_caused_parse : ∃ c c',
    Reaches (Machine .emscripten (failing .parse)) (.idle (State.boot ())) parseSteps c ∧
      Machine .emscripten (failing .parse) c .code c' ∧ c'.state.ignoreTillSync = true ∧
        InExtended c.state c'.state := by
  have hfresh : ((Config.idle (State.boot ())).runs .emscripten (failing .parse) staysFresh
      (parseSteps ++ [.code])).isSome = true := by decide +kernel
  obtain ⟨_, hruns⟩ := Option.isSome_iff_exists.mp hfresh
  have hlast : ((Config.idle (State.boot ())).lastStep .emscripten (failing .parse) parseSteps).map
      (fun p => (p.1.state.ignoreTillSync, p.2.state.ignoreTillSync)) = some (false, true) := by decide +kernel
  obtain ⟨⟨c, c'⟩, hsteps, hflags⟩ := Option.map_eq_some_iff.mp hlast
  obtain ⟨hbefore, hafter⟩ := Prod.mk.inj hflags
  obtain ⟨hrun, hstep⟩ := reaches_of_lastStep hsteps
  have hguard : Guarded (Machine .emscripten (failing .parse)) (RunsFresh .emscripten (failing .parse))
      (.idle (State.boot ())) (parseSteps ++ [.code]) :=
    (reaches_of_runs _ _ hruns).2.mono fun _ _ => runsFresh_of_staysFresh
  exact ⟨c, c', hrun, hstep, hafter, skip_caused () hguard List.prefix_rfl hrun hstep hbefore hafter⟩

/-- A Flush in wire mode, then a statement of the repl, up to its dispatch. -/
def flushThenStatement : List HostStep :=
  .useWire 1 :: .request .cma [72, 0, 0, 0, 4] :: List.replicate 6 .code ++
    [.useWire 0, .request .cma [104, 105], .code]

/-- The statement fails, and what follows is skipped. -/
theorem skip_uncaused : ∃ c c',
    Reaches (Machine .emscripten (failing .query)) (.idle (State.boot ())) flushThenStatement c ∧
      Machine .emscripten (failing .query) c .code c' ∧ ¬SkipCaused c.state c'.state := by
  have hlast : ((Config.idle (State.boot ())).lastStep .emscripten (failing .query) flushThenStatement).map
      (fun p => (p.1.state.ignoreTillSync, p.2.state.ignoreTillSync,
        p.2.state.trace.drop p.1.state.trace.length)) =
      some (false, true, [.raising .messageSwitch, .dispatch .query [104, 105, 0]]) := by decide +kernel
  obtain ⟨⟨c, c'⟩, hsteps, hflags⟩ := Option.map_eq_some_iff.mp hlast
  obtain ⟨hbefore, hrest⟩ := Prod.mk.inj hflags
  obtain ⟨hafter, hnew⟩ := Prod.mk.inj hrest
  obtain ⟨hrun, hstep⟩ := reaches_of_lastStep hsteps
  refine ⟨c, c', hrun, hstep, fun hcaused => ?_⟩
  obtain ⟨before, m, body, behind, htrace, hm, -⟩ := hcaused hbefore hafter
  have hmem : Event.dispatch m body ∈ [.raising .messageSwitch, .dispatch .query [104, 105, 0]] := by
    rw [← hnew, htrace]
    simp
  obtain ⟨rfl, -⟩ : m = .query ∧ body = [104, 105, 0] := by simpa using hmem
  cases hm

end PgliteBuild
