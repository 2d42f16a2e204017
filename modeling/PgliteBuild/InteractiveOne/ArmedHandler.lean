import PgliteBuild.InteractiveOne.Entry
import PgliteBuild.InteractiveOne.Moves

/-! # The error handler is armed first

Operations that can raise an error should run only after the current activation has executed
`sigsetjmp`. Four ways lead around it: the flush of a resume call, the flush of a leftover frame, the
delivery of notifications before the packet is looked at, and the startup or password packet in a socket
file. `handled_iff` says that there is no other way, for every state, every backend and every budget. -/

namespace PgliteBuild

open Effect Jumps

variable {σ : Type} {b : Build} {B : Backend σ}

/-! ## Histories -/

/-- In a history, every operation that can raise an error comes after a `sigsetjmp`. -/
def ArmedFirst (events : List Event) : Prop :=
  ∀ before op after, events = before ++ .raising op :: after → .sigsetjmp ∈ before

/-- A history without an operation that can raise an error is armed. -/
theorem armedFirst_of_unraised {events : List Event} (h : ∀ op, .raising op ∉ events) :
    ArmedFirst events := by
  intro before op after heq
  exact absurd (by simp [heq]) (h op)

/-- What happens after a `sigsetjmp` is armed. -/
theorem ArmedFirst.append {events : List Event} (h : ArmedFirst events)
    (harmed : .sigsetjmp ∈ events) (more : List Event) : ArmedFirst (events ++ more) := by
  intro before op after heq
  rcases List.append_eq_append_iff.mp heq with ⟨xs, hbefore, -⟩ | ⟨xs, hevents, hrest⟩
  · rw [hbefore]
    exact List.mem_append_left _ harmed
  · cases xs with
    | nil =>
        rw [List.append_nil] at hevents
        rwa [← hevents]
    | cons x xs =>
        obtain ⟨rfl, -⟩ := List.cons_eq_cons.mp hrest
        exact h before op xs hevents

/-! ## What the code does to the history -/

/-- The history grows, and an armed handler stays armed. -/
structure Grows (s s' : State σ) : Prop where
  trace : s.trace <+: s'.trace
  armed : s.armed = true → s'.armed = true

/-- Every history is a beginning of itself. -/
theorem Grows.refl (s : State σ) : Grows s s := ⟨List.prefix_rfl, id⟩

/-- A history that grows twice grows. -/
theorem Grows.trans {s s' s'' : State σ} (h : Grows s s') (h' : Grows s' s'') : Grows s s'' :=
  ⟨h.trace.trans h'.trace, fun harmed => h'.armed (h.armed harmed)⟩

/-- A step that does not read only lets the history grow. -/
theorem SendMove.grows {s s' : State σ} (h : SendMove s s') : Grows s s' := by
  cases h with
  | control hframe => exact ⟨by rw [hframe.trace], hframe.armed.trans⟩
  | note _ => exact ⟨List.prefix_append _ _, id⟩
  | put source ops _ => exact ⟨List.prefix_append _ _, id⟩
  | flush => exact ⟨List.prefix_rfl, id⟩
  | closed events _ _ _ => exact ⟨List.prefix_append _ _, id⟩

/-- A step of the code only lets the history grow. -/
theorem Move.grows {s s' : State σ} (h : Move b s s') : Grows s s' := by
  cases h with
  | send hsend => exact hsend.grows
  | call op _ _ => exact ⟨List.prefix_rfl, id⟩
  | negative _ => exact ⟨List.prefix_rfl, id⟩
  | leave hframe => exact ⟨by rw [hframe.trace], hframe.armed.trans⟩

/-- A computation that only lets the history grow. -/
abbrev Growing {α : Type} (m : PgM σ α) : Prop := Performs Grows m

/-- Code only lets the history grow. -/
theorem growing_of_moves {α : Type} {m : PgM σ α} (hm : Moves b m) : Growing m :=
  hm.mono fun _ _ => Move.grows

/-- As `Grows`, without an operation that can raise an error. -/
structure GrowsQuietly (s s' : State σ) : Prop where
  trace : ∃ new, s'.trace = s.trace ++ new ∧ ∀ op, .raising op ∉ new
  armed : s.armed = true → s'.armed = true

/-- A history that grows quietly grows. -/
theorem GrowsQuietly.grows {s s' : State σ} (h : GrowsQuietly s s') : Grows s s' := by
  obtain ⟨new, htrace, -⟩ := h.trace
  exact ⟨htrace ▸ List.prefix_append _ _, h.armed⟩

/-- A computation that lets the history grow without an operation that can raise an error. -/
abbrev GrowingQuietly {α : Type} (m : PgM σ α) : Prop := Performs GrowsQuietly m

/-- An assignment that keeps the history and an armed handler raises nothing. -/
theorem growingQuietly_modify {f : State σ → State σ} (htrace : ∀ s, (f s).trace = s.trace)
    (harmed : ∀ s, s.armed = true → (f s).armed = true) : GrowingQuietly (modify f : PgM σ Unit) :=
  performs_modify fun s => ⟨⟨[], by simp [htrace]⟩, harmed s⟩

/-- Noting another event raises nothing. -/
theorem growingQuietly_record {e : Event} (he : ∀ op, e ≠ .raising op) :
    GrowingQuietly (record e : PgM σ Unit) :=
  performs_modify fun _ => ⟨⟨[e], rfl, fun op hop => he op (List.mem_singleton.mp hop).symm⟩, id⟩

/-- Closing the socket file raises nothing. -/
theorem growingQuietly_closeSocketFile (publish : Bool) :
    GrowingQuietly (closeSocketFile publish : PgM σ Unit) := by
  refine performs_bind performs_get fun s => ?_
  cases s.comm.socketFile with
  | none => exact performs_throw _
  | some content =>
      refine performs_bind (growingQuietly_modify (fun _ => rfl) fun _ => id) fun _ => ?_
      refine performs_ite ?_ (performs_pure _)
      exact performs_bind (growingQuietly_modify (fun _ => rfl) fun _ => id) fun _ =>
        growingQuietly_record (by simp)

/-- Handing the reply over raises nothing. -/
theorem growingQuietly_handOver : GrowingQuietly (handOver : PgM σ Unit) := by
  have hlast : GrowingQuietly (modify fun s =>
      { s with comm := { s.comm with socketData := 0 } } : PgM σ Unit) :=
    growingQuietly_modify (fun _ => rfl) fun _ => id
  have hclose : GrowingQuietly (do
      if (← get).comm.socketFile.isSome then closeSocketFile (← get).comm.sockfiles
      modify fun s => { s with comm := { s.comm with socketData := 0 } } : PgM σ Unit) := by
    refine performs_bind performs_get fun s => ?_
    split
    · exact performs_bind performs_get fun s =>
        performs_bind (growingQuietly_closeSocketFile _) fun _ => hlast
    · exact hlast
  refine performs_bind performs_get fun s => ?_
  split
  · refine performs_bind performs_get fun s => ?_
    split
    · exact performs_bind (growingQuietly_modify (fun _ => rfl) fun _ => id) fun _ => hclose
    · exact performs_bind (growingQuietly_modify (fun _ => rfl) fun _ => id) fun _ => hclose
  · refine performs_bind (growingQuietly_modify (fun _ => rfl) fun _ => id) fun _ => ?_
    exact performs_bind performs_get fun s =>
      performs_ite (growingQuietly_closeSocketFile true) (performs_pure _)

/-- The code of every label but `wire_flush` and the loop runs no operation that can raise an error. -/
theorem growingQuietly_block {l : Label} (hloop : l ≠ .loop) (hflush : l ≠ .wireFlush) :
    GrowingQuietly (block b B l) := by
  cases l with
  | incoming =>
      dsimp only [block]
      split
      · refine performs_bind (growingQuietly_modify (fun _ => rfl) fun _ _ => rfl) fun _ => ?_
        exact performs_bind (growingQuietly_record (by simp)) fun _ => performs_pure _
      · exact performs_pure _
  | loop => exact absurd rfl hloop
  | resumeOnError =>
      refine performs_bind performs_get fun s => performs_ite ?_ (performs_pure _)
      exact performs_bind (growingQuietly_record (by simp)) fun _ => performs_pure _
  | wireFlush => exact absurd rfl hflush
  | returnEarly =>
      exact performs_bind (growingQuietly_modify (fun _ => rfl) fun _ => id) fun _ => performs_pure _

/-- The code at every label only lets the history grow. -/
theorem growing_block (l : Label) : Growing (block b B l) := by
  have hquiet : ∀ {m : PgM σ (Option Label)}, GrowingQuietly m → Growing m :=
    fun hm => hm.mono fun _ _ => GrowsQuietly.grows
  cases l with
  | incoming | resumeOnError | returnEarly => exact hquiet (growingQuietly_block (by simp) (by simp))
  | loop =>
      refine performs_bind performs_get fun s => performs_ite ?_ (performs_pure _)
      exact performs_bind (growing_of_moves (moves_loopRound B)) fun _ => performs_pure _
  | wireFlush =>
      have hrecord : Growing (record .wireFlush : PgM σ Unit) :=
        (growingQuietly_record (by simp)).mono fun _ _ => GrowsQuietly.grows
      have hover : Growing (handOver : PgM σ Unit) :=
        growingQuietly_handOver.mono fun _ _ => GrowsQuietly.grows
      refine performs_bind ?_ fun _ => performs_pure _
      exact performs_bind hrecord fun _ =>
        performs_bind (growing_of_moves (moves_finishReply B)) fun _ => hover

/-- The handler only lets the history grow. -/
theorem growing_handler : Growing (handler b B) :=
  growing_of_moves (b := b) (sends_handler B).moves

/-! ## Code that raises no error -/

/-- A computation on the connection throws from a call what it throws by itself. -/
theorem throws_liftComm {α : Type} {E : Stop → Prop} {m : CommM α} (hm : Throws E m) :
    Throws E (liftComm m : PgM σ α) := fun s => (wp_liftComm m _ _ s).mpr (hm s.comm)

/-- Writing to the socket file raises no error: without a file the process dies. -/
theorem throws_fwriteSocketFile (bytes : List UInt8) : Throws (· ≠ .error) (fwriteSocketFile bytes) := by
  refine throws_bind throws_get fun c => ?_
  cases c.socketFile with
  | none => exact throws_throw (by simp)
  | some content => exact throws_modify _

/-- Putting bytes raises no error. -/
theorem throws_internalPutbytes (s : List UInt8) : Throws (· ≠ .error) (internalPutbytes s) := by
  have hloop : ∀ fuel s, Throws (· ≠ .error) (internalPutbytesLoop fuel s) := by
    intro fuel
    induction fuel with
    | zero => exact fun s => throws_pure _
    | succ fuel ih =>
        intro s
        refine throws_bind throws_get fun c => throws_ite (throws_pure _) (throws_ite ?_ ?_)
        · exact throws_bind (throws_fwriteSocketFile _) fun _ =>
            throws_bind (throws_modify _) fun _ => throws_pure _
        · exact throws_bind (throws_modify _) fun _ => ih _
  have hrest : ∀ rest, Throws (· ≠ .error) (fwriteRedirected rest) := fun rest =>
    throws_bind throws_get fun c => throws_ite
      (throws_bind (throws_fwriteSocketFile _) fun _ => throws_modify _) (throws_pure _)
  refine throws_bind throws_get fun c => ?_
  split
  · exact throws_bind (throws_pure _) hrest
  · exact throws_bind (hloop _ _) hrest

/-- Putting a protocol message raises no error. -/
theorem throws_putmessage (source : Source) (msgtype : UInt8) (body : List UInt8) :
    Throws (· ≠ .error) (putmessage source msgtype body : PgM σ Unit) := by
  refine throws_bind (throws_liftComm ?_) fun _ => throws_modify _
  exact throws_bind (throws_internalPutbytes _) fun _ =>
    throws_bind (throws_internalPutbytes _) fun _ => throws_internalPutbytes _

/-- Reporting an error raises no error. -/
theorem throws_emitErrorReport : Throws (· ≠ .error) (emitErrorReport B) := by
  refine throws_bind throws_get fun s => ?_
  cases s.errordata with
  | none => exact throws_pure _
  | some e =>
      refine throws_bind throws_get fun s => ?_
      dsimp only
      split
      · exact throws_bind (throws_putmessage _ _ _) fun _ =>
          throws_bind (throws_liftComm (throws_modify _)) fun _ => throws_modify _
      · exact throws_modify _

/-- Clearing an error raises no error; in the middle of a message it ends the process. -/
theorem throws_clearError : Throws (· ≠ .error) (clearError B) := by
  have hlast : Throws (· ≠ .error) (do
      if !(← get).ignoreTillSync then
        modify fun s => { s with sendReadyForQuery := true } : PgM σ Unit) :=
    throws_bind throws_get fun s => throws_ite (throws_modify _) (throws_pure _)
  have hrest : Throws (· ≠ .error) (do
      if (← get).comm.pqCommReadingMsg then throw (.fatal syncLost)
      if !(← get).ignoreTillSync then
        modify fun s => { s with sendReadyForQuery := true } : PgM σ Unit) := by
    refine throws_bind throws_get fun s => ?_
    dsimp only
    split
    · exact throws_bind (throws_throw (by simp)) fun _ => hlast
    · exact hlast
  refine throws_bind throws_emitErrorReport fun _ => throws_bind (throws_modify _) fun _ => ?_
  refine throws_bind throws_get fun s => ?_
  dsimp only
  split
  · exact throws_bind (throws_modify _) fun _ => hrest
  · exact hrest

/-- The handler raises no error. -/
theorem throws_handler : Throws (· ≠ .error) (handler b B) := by
  have hincoming : Throws (· ≠ .error) (do
      modify fun s => { s with canaryEx := s.canaryEx + 1 }
      pure .incoming : PgM σ Label) := throws_bind (throws_modify _) fun _ => throws_pure _
  refine throws_bind (throws_modify _) fun _ => throws_bind throws_clearError fun _ => ?_
  refine throws_bind throws_get fun s => throws_ite ?_ ?_
  · refine throws_bind throws_get fun s => ?_
    dsimp only
    split
    · exact throws_bind (throws_throw (by simp)) fun _ => hincoming
    · exact hincoming
  · exact throws_pure _

/-- The acceptance raises no error. -/
theorem throws_accept : Throws (· ≠ .error) (do
    modify fun s => { s with clientAuthInProgress := false }
    putmessage .auth 82 (Framing.word32 0)
    putmessages .auth 83 (B.gucReport (← get).db)
    putmessage .auth 75 B.backendKey
    modify fun s => { s with sendReadyForQuery := true, ignoreTillSync := false } : PgM σ Unit) := by
  have hbodies : ∀ bodies, Throws (· ≠ .error) (putmessages .auth 83 bodies : PgM σ Unit) := by
    intro bodies
    induction bodies with
    | nil => exact throws_pure _
    | cons body bodies ih => exact throws_bind (throws_putmessage _ _ _) fun _ => ih
  refine throws_bind (throws_modify _) fun _ => throws_bind (throws_putmessage _ _ _) fun _ => ?_
  refine throws_bind throws_get fun s => throws_bind (hbodies _) fun _ => ?_
  exact throws_bind (throws_putmessage _ _ _) fun _ => throws_modify _

/-- `startup_auth` raises no error. -/
theorem throws_startupAuth : Throws (· ≠ .error) (startupAuth b : PgM σ Unit) := by
  have hbytes : ∀ n, Throws (· ≠ .error) (discardBytes b n : PgM σ Unit) := by
    intro n
    induction n with
    | zero => exact throws_pure _
    | succ n ih => exact throws_bind (m := liftRecv (pqGetbyte b)) (fun _ => trivial) fun _ => ih
  have hstart : Throws (· ≠ .error) (pqStartmsgread b) := by
    intro c
    rcases Bool.eq_false_or_eq_true c.pqCommReadingMsg with hreading | hreading
    · rw [wp_of_error (pqStartmsgread_reading hreading)]
      simp
    · rw [wp_of_ok (pqStartmsgread_eq hreading)]
      trivial
  have hdiscard : Throws (· ≠ .error) (discardInput b : PgM σ Unit) := by
    refine throws_bind throws_get fun s => throws_ite (throws_pure _) ?_
    refine throws_bind (throws_liftComm hstart) fun _ => throws_bind throws_get fun s => ?_
    exact throws_bind (hbytes _) fun _ => throws_liftComm (throws_modify _)
  refine throws_bind (throws_modify _) fun _ => throws_bind (throws_modify _) fun _ => ?_
  refine throws_bind (throws_modify _) fun _ => throws_bind hdiscard fun _ => ?_
  refine throws_bind (throws_modify _) fun _ => throws_bind (throws_putmessage _ _ _) fun _ => ?_
  exact throws_liftComm (throws_modify _)

/-- The end of a round raises no error. -/
theorem throws_betweenMessages : Throws (· ≠ .error) (betweenMessages B) := by
  have hready : ∀ dest, Throws (· ≠ .error) (readyForQuery B dest) := by
    intro dest
    refine throws_bind (throws_modify _) fun _ => throws_ite ?_ (throws_pure _)
    refine throws_bind throws_get fun s => throws_bind (throws_putmessage _ _ _) fun _ => ?_
    exact throws_liftComm (throws_modify _)
  refine throws_bind throws_get fun s => throws_ite ?_ (throws_pure _)
  refine throws_bind (throws_modify _) fun _ => throws_bind throws_get fun s => ?_
  refine throws_bind throws_get fun s' => throws_ite ?_ (throws_pure _)
  refine throws_bind throws_get fun s => throws_bind (hready _) fun _ => ?_
  exact throws_modify _

/-- The end of the session raises no error. -/
theorem throws_terminate : Throws (· ≠ .error) (protoSwitch b B (some .terminate)) := by
  refine throws_bind (throws_modify _) fun _ => throws_bind throws_get fun s => ?_
  exact throws_bind (throws_modify _) fun _ => throws_bind (throws_modify _) fun _ => throws_pure _

/-! ## Armed activations -/

variable {history : List Event}

/-- This activation, which began with the given history, has armed its handler. -/
def Armed (history : List Event) (s : State σ) : Prop :=
  s.armed = true ∧ ∃ new, s.trace = history ++ new ∧ .sigsetjmp ∈ new ∧ ArmedFirst new

/-- An armed activation stays armed while its history grows. -/
theorem Armed.grows {s s' : State σ} (h : Armed history s) (hgrows : Grows s s') :
    Armed history s' := by
  obtain ⟨harmed, new, htrace, hmem, hfirst⟩ := h
  obtain ⟨more, hmore⟩ := hgrows.trace
  refine ⟨hgrows.armed harmed, new ++ more, ?_, List.mem_append_left _ hmem, hfirst.append hmem more⟩
  rw [← hmore, htrace, List.append_assoc]

/-- **Step lemma**: an armed activation stays armed, and no error leaves it. -/
theorem Armed.step {s : State σ} (h : Armed history s) (l : Label) :
    wp (step b B l) (fun _ => Armed history) (fun e s' => Armed history s' ∧ e ≠ .error) s := by
  have hblock : wp (block b B l) (fun _ => Armed history) (fun _ => Armed history) s :=
    (growing_block l).keeps (fun _ _ hs hgrows => hs.grows hgrows) h
  refine (wp_step l _ _ s).mpr (wp_mono hblock (fun _ _ h' => h') fun e s' h' => ?_)
  split_ifs with herror
  · have hkeeps : wp (handler b B) (fun _ => Armed history) (fun _ => Armed history) s' :=
      growing_handler.keeps (fun _ _ hs hgrows => hs.grows hgrows) h'
    exact wp_mono (wp_and hkeeps (throws_handler s')) (fun _ _ h => h.1) fun _ _ h => h
  · exact ⟨h', fun he => herror ⟨he, h'.1⟩⟩

/-- This activation has not run an operation that can raise an error. -/
def Unraised (history : List Event) (s : State σ) : Prop :=
  ∃ new, s.trace = history ++ new ∧ ∀ op, .raising op ∉ new

/-- An activation that has raised nothing still has not after growing quietly. -/
theorem Unraised.grows {s s' : State σ} (h : Unraised history s) (hgrows : GrowsQuietly s s') :
    Unraised history s' := by
  obtain ⟨new, htrace, hquiet⟩ := h
  obtain ⟨more, hmore, hquiet'⟩ := hgrows.trace
  refine ⟨new ++ more, by rw [hmore, htrace, List.append_assoc], fun op hop => ?_⟩
  rcases List.mem_append.mp hop with hop | hop
  · exact hquiet op hop
  · exact hquiet' op hop

/-! ## Unarmed activations that have nothing to raise -/

/-- The flush of this state neither delivers notifications nor sends a ReadyForQuery. -/
def NothingToFinish (s : State σ) : Prop :=
  s.clientAuthInProgress = true ∨
    s.notifyInterruptPending = false ∧ s.sendReadyForQuery = false

/-- From this label an unarmed activation runs no operation that can raise an error. -/
def QuietAt (s : State σ) : Label → Prop
  | .incoming | .returnEarly => True
  | .loop => False
  | .resumeOnError => s.isRepl = true ∨ NothingToFinish s
  | .wireFlush => NothingToFinish s

/-- With nothing to finish the end of a reply does nothing. -/
theorem finishReply_nothing {s : State σ} (h : NothingToFinish s) : finishReply b B s = .ok () s := by
  rw [finishReply, run_bind_ok (run_get _)]
  rcases h with hauth | ⟨hnotify, hready⟩
  · rw [if_neg (by simp [hauth])]
    rfl
  · split_ifs
    · rw [run_bind_ok (run_get _)]
      refine Eq.trans (congrFun (if_neg (by simp [hnotify])) _) ?_
      refine (run_bind_ok (run_get _)).trans ?_
      exact congrFun (if_neg (by simp [hready])) _
    · rfl

/-- Closing the socket file raises no error. -/
theorem throws_closeSocketFile (publish : Bool) :
    Throws (· ≠ .error) (closeSocketFile publish : PgM σ Unit) := by
  refine throws_bind throws_get fun s => ?_
  cases s.comm.socketFile with
  | none => exact throws_throw (by simp)
  | some content =>
      exact throws_bind (throws_modify _) fun _ => throws_ite
        (throws_bind (throws_modify _) fun _ => throws_modify _) (throws_pure _)

/-- Handing the reply over raises no error. -/
theorem throws_handOver : Throws (· ≠ .error) (handOver : PgM σ Unit) := by
  have hclose : Throws (· ≠ .error) (do
      if (← get).comm.socketFile.isSome then closeSocketFile (← get).comm.sockfiles
      modify fun s => { s with comm := { s.comm with socketData := 0 } } : PgM σ Unit) := by
    refine throws_bind throws_get fun s => ?_
    split
    · exact throws_bind throws_get fun s =>
        throws_bind (throws_closeSocketFile _) fun _ => throws_modify _
    · exact throws_modify _
  refine throws_bind throws_get fun s => ?_
  split
  · refine throws_bind throws_get fun s => ?_
    split
    · exact throws_bind (throws_modify _) fun _ => hclose
    · exact throws_bind (throws_modify _) fun _ => hclose
  · exact throws_bind (throws_modify _) fun _ =>
      throws_bind throws_get fun s => throws_ite (throws_closeSocketFile true) (throws_pure _)

/-- The flush of an unarmed activation that has nothing to finish. -/
theorem Unraised.flush {s : State σ} (h : Unraised history s) (hnothing : NothingToFinish s) :
    wp (wireFlush b B) (fun _ => Unraised history) (fun e s' => Unraised history s' ∧ e ≠ .error) s := by
  have hrecorded : Unraised history { s with trace := s.trace ++ [.wireFlush] } :=
    h.grows ⟨⟨[.wireFlush], rfl, by simp⟩, id⟩
  have hkeeps : wp handOver (fun _ => Unraised history) (fun _ => Unraised history)
      { s with trace := s.trace ++ [.wireFlush] } :=
    growingQuietly_handOver.keeps (fun _ _ hs hgrows => hs.grows hgrows) hrecorded
  rw [wireFlush, wp_bind, wp_record, wp_bind, wp_of_ok (finishReply_nothing ?_)]
  · exact wp_mono (wp_and hkeeps (throws_handOver _)) (fun _ _ h => h.1) fun _ _ h => h
  · exact hnothing

/-- **Step lemma**: an unarmed activation at a quiet label raises nothing, and goes on armed or at a
quiet label. -/
theorem Unraised.step {s : State σ} (hjmp : b.sigsetjmp = true) (h : Unraised history s) {l : Label}
    (hquiet : QuietAt s l) :
    wp (step b B l)
      (fun next s' => Armed history s' ∨ Unraised history s' ∧ ∀ l', next = some l' → QuietAt s' l')
      (fun e s' => Unraised history s' ∧ e ≠ .error) s := by
  refine (wp_step l _ _ s).mpr ?_
  cases l with
  | incoming =>
      rw [block, if_pos hjmp, wp_bind, wp_modify, wp_bind, wp_record, wp_pure]
      obtain ⟨new, htrace, hraised⟩ := h
      refine Or.inl ⟨rfl, new ++ [.sigsetjmp], ?_, by simp, ?_⟩
      · simp [htrace]
      · exact armedFirst_of_unraised (by simpa using hraised)
  | loop => exact hquiet.elim
  | resumeOnError =>
      rw [block, wp_bind, wp_get]
      split_ifs with hrepl
      · rw [wp_bind, wp_record, wp_pure]
        refine Or.inr ⟨h.grows ⟨⟨[.prompt], rfl, by simp⟩, id⟩, ?_⟩
        rintro l' ⟨⟩
        trivial
      · rw [wp_pure]
        refine Or.inr ⟨h, ?_⟩
        rintro l' ⟨⟩
        exact hquiet.resolve_left hrepl
  | wireFlush =>
      rw [block, wp_bind]
      refine wp_mono (h.flush hquiet) (fun _ s' hs' => ?_) fun e s' he => ?_
      · refine Or.inr ⟨hs', ?_⟩
        rintro l' ⟨⟩
        trivial
      · rw [if_neg fun hc => he.2 hc.1]
        exact he
  | returnEarly =>
      rw [block, wp_bind, returnEarly, wp_modify, wp_pure]
      refine Or.inr ⟨h.grows ⟨⟨[], by simp, by simp⟩, id⟩, ?_⟩
      rintro l' hl'
      cases hl'

/-- What every activation should leave behind: errors could only be raised with the handler armed. -/
def Handled (history : List Event) (s : State σ) : Prop :=
  ∃ new, s.trace = history ++ new ∧ ArmedFirst new

/-- An armed activation has handled its errors. -/
theorem Armed.handled {s : State σ} (h : Armed history s) : Handled history s := by
  obtain ⟨-, new, htrace, -, hfirst⟩ := h
  exact ⟨new, htrace, hfirst⟩

/-- An activation that has raised nothing has handled its errors. -/
theorem Unraised.handled {s : State σ} (h : Unraised history s) : Handled history s := by
  obtain ⟨new, htrace, hraised⟩ := h
  exact ⟨new, htrace, armedFirst_of_unraised hraised⟩

/-- **Run lemma**: from a quiet label on, errors are only raised with the handler armed, and none leaves
the activation. -/
theorem handled_run (hjmp : b.sigsetjmp = true) (fuel : ℕ) {l : Label} {s : State σ}
    (h : Unraised history s) (hquiet : QuietAt s l) :
    wp (run b B fuel l) (fun _ => Handled history) (fun e s' => Handled history s' ∧ e ≠ .error) s := by
  refine follow_inv (J := fun l s => Armed history s ∨ Unraised history s ∧ QuietAt s l)
    (fun l s hJ => ?_) (fun l s hJ => ?_) fuel (Or.inr ⟨h, hquiet⟩)
  · rcases hJ with harmed | ⟨hunraised, hquiet⟩
    · refine wp_mono (harmed.step l) (fun next s' h' => ?_) fun e s' h' => ⟨h'.1.handled, h'.2⟩
      cases next with
      | none => exact h'.handled
      | some l' => exact Or.inl h'
    · refine wp_mono (hunraised.step hjmp hquiet) (fun next s' h' => ?_)
        fun e s' h' => ⟨h'.1.handled, h'.2⟩
      cases next with
      | none => exact h'.elim Armed.handled fun h' => h'.1.handled
      | some l' => exact h'.imp_right fun h' => ⟨h'.1, h'.2 l' rfl⟩
  · rcases hJ with harmed | ⟨hunraised, -⟩
    · exact ⟨harmed.handled, by simp⟩
    · exact ⟨hunraised.handled, by simp⟩

/-! ## Unarmed activations that raise something -/

/-- This activation has run an operation that can raise an error before any `sigsetjmp`. -/
def Raised (history : List Event) (s : State σ) : Prop :=
  ∃ before op, history ++ before ++ [.raising op] <+: s.trace ∧ .sigsetjmp ∉ before

/-- An operation that ran before any `sigsetjmp` stays in the history. -/
theorem Raised.grows {s s' : State σ} (h : Raised history s) (hgrows : Grows s s') :
    Raised history s' := by
  obtain ⟨before, op, hprefix, hnot⟩ := h
  exact ⟨before, op, hprefix.trans hgrows.trace, hnot⟩

/-- An activation that ran such an operation has not handled its errors. -/
theorem Raised.not_handled {s : State σ} (h : Raised history s) : ¬Handled history s := by
  obtain ⟨before, op, ⟨after, hafter⟩, hnot⟩ := h
  rintro ⟨new, htrace, hfirst⟩
  rw [htrace, List.append_assoc, List.append_assoc] at hafter
  exact hnot (hfirst before op after (List.append_cancel_left hafter).symm)

/-- Code leaves such an operation in the history. -/
theorem raised_of_growing {α : Type} {m : PgM σ α} (hm : Growing m) {s : State σ}
    (h : Raised history s) : wp m (fun _ => Raised history) (fun _ => Raised history) s :=
  hm.keeps (fun _ _ hs hgrows => hs.grows hgrows) h

/-- An operation that can raise an error does so in an activation that is not armed. -/
theorem raised_of_raises {α : Type} {op : Raiser} {m : PgM σ α} (hm : Raises (Move b) op m) {s : State σ}
    {before : List Event} (htrace : s.trace = history ++ before) (hnot : .sigsetjmp ∉ before) :
    wp m (fun _ => Raised history) (fun _ => Raised history) s := by
  obtain ⟨rest, hrest, rfl⟩ := hm
  rw [wp_bind, wp_record]
  refine raised_of_growing (growing_of_moves hrest) ⟨before, op, ?_, hnot⟩
  rw [htrace]

/-- A run leaves such an operation in the history. -/
theorem raised_run (fuel : ℕ) {l : Label} {s : State σ} (h : Raised history s) :
    wp (run b B fuel l) (fun _ => Raised history) (fun _ => Raised history) s := by
  refine follow_inv (J := fun _ s => Raised history s) (fun l s hs => ?_) ?_ fuel h
  swap
  · exact fun _ _ hs => hs
  refine (wp_step l _ _ s).mpr ?_
  refine wp_mono (raised_of_growing (growing_block l) hs) (fun next s' hs' => ?_) fun e s' hs' => ?_
  · cases next <;> exact hs'
  · split_ifs
    · exact raised_of_growing growing_handler hs'
    · exact hs'

/-- A flush that has something to finish runs an operation that can raise an error. -/
theorem raised_finishReply {s : State σ} (hsome : ¬NothingToFinish s) {before : List Event}
    (htrace : s.trace = history ++ before) (hnot : .sigsetjmp ∉ before) :
    wp (finishReply b B) (fun _ => Raised history) (fun _ => Raised history) s := by
  have hauth : s.clientAuthInProgress = false := by
    by_contra h
    exact hsome (Or.inl (by simpa using h))
  rw [finishReply, wp_bind, wp_get, if_pos (by simp [hauth]), wp_bind, wp_get]
  by_cases hnotify : s.notifyInterruptPending = true
  · rw [if_pos hnotify, wp_bind]
    exact wp_mono (raised_of_raises (moves_processNotifyInterrupt B) htrace hnot)
      (fun _ s' hs' =>
        raised_of_growing (growing_of_moves (b := b) (sends_lastReadyForQuery B).moves) hs')
      fun _ _ hs' => hs'
  · have hready : s.sendReadyForQuery = true := by
      by_contra h
      exact hsome (Or.inr ⟨by simpa using hnotify, by simpa using h⟩)
    rw [if_neg hnotify, lastReadyForQuery, wp_bind, wp_get, if_pos hready, wp_bind]
    refine wp_mono (raised_of_raises (b := b) (raises_readyForQuery B _).reading htrace hnot)
      (fun _ s' hs' => ?_) fun _ _ hs' => hs'
    exact hs'.grows ⟨List.prefix_rfl, id⟩

/-- A call that begins with a flush that has something to finish runs such an operation. -/
theorem raised_run_wireFlush (fuel : ℕ) {s : State σ} (hsome : ¬NothingToFinish s)
    (htrace : s.trace = history) :
    wp (run b B (fuel + 1) .wireFlush) (fun _ => Raised history) (fun _ => Raised history) s := by
  have hflush : wp (wireFlush b B) (fun _ => Raised history) (fun _ => Raised history) s := by
    rw [wireFlush, wp_bind, wp_record, wp_bind]
    have hnot : Event.sigsetjmp ∉ [Event.wireFlush] := by simp
    refine wp_mono (raised_finishReply hsome ?_ hnot) (fun _ s' hs' => ?_) fun _ _ hs' => hs'
    · rw [htrace]
    · exact raised_of_growing (growingQuietly_handOver.mono fun _ _ => GrowsQuietly.grows) hs'
  rw [run, follow, wp_bind, wp_step, block, wp_bind]
  refine wp_mono hflush (fun _ s' hs' => raised_run fuel hs') fun e s' hs' => ?_
  split_ifs
  · refine wp_mono (raised_of_growing growing_handler hs') (fun l' s'' hs'' => raised_run fuel hs'')
      fun _ _ hs'' => hs''
  · exact hs'

/-! ## Every activation -/

/-- Whether the way into this call leads around the arming of the handler nowhere: a resume call or
the flush of a leftover frame finds nothing to finish, and a request finds no notifications to deliver
first and is not a startup or password packet in a socket file. -/
def EntersQuietly (B : Backend σ) (s : State σ) : Prop :=
  if s.comm.cmaRsize < 0 then s.isRepl = true ∨ NothingToFinish s
  else if s.myProcPort = true ∧ 0 < s.comm.socketData then NothingToFinish s
  else
    (s.sendReadyForQuery = true → B.blockState s.db = .idle → s.notifyInterruptPending = false) ∧
      (s.comm.cmaRsize = 0 →
        ∀ t ∈ s.comm.pgsIn.bind List.head?, t ≠ 0 ∧ t ≠ 112)

/-- Errors are handled by the activation that raises them: each operation that can raise one runs after
this activation's `sigsetjmp`, and no error leaves it. -/
def HandlesErrors (b : Build) (B : Backend σ) (fuel : ℕ) (s : State σ) : Prop :=
  wp (interactiveOne b B fuel) (fun _ => Handled s.trace) (fun e s' => Handled s.trace s' ∧ e ≠ .error) s

/-- The intake of a packet in the memory area raises nothing. -/
theorem growingQuietly_intakeMemory (packetlen : ℕ) :
    GrowingQuietly (intakeMemory packetlen : PgM σ Label) := by
  refine performs_bind (growingQuietly_modify (fun _ => rfl) fun _ => id) fun _ =>
    performs_ite ?_ (performs_pure _)
  refine performs_bind performs_get fun s => ?_
  dsimp only
  split
  · exact performs_bind (growingQuietly_record (by simp)) fun _ => performs_pure _
  · exact performs_pure _

/-- A packet in the memory area goes to `incoming`, or to `return_early`. -/
theorem intakeMemory_label (packetlen : ℕ) (s : State σ) :
    wp (intakeMemory packetlen) (fun l _ => l = .incoming ∨ l = .returnEarly) (fun _ _ => False) s := by
  rw [intakeMemory, wp_bind, wp_modify]
  by_cases hlen : packetlen < 2
  · rw [if_pos hlen, wp_bind, wp_get]
    split_ifs
    · exact Or.inr rfl
    · exact Or.inr rfl
  · rw [if_neg hlen]
    exact Or.inl rfl

/-- A packet in the memory area is taken in without an operation that can raise an error. -/
theorem Unraised.intakeMemory {s : State σ} (h : Unraised history s) (packetlen : ℕ) :
    wp (intakeMemory packetlen) (fun l s' => (l = .incoming ∨ l = .returnEarly) ∧ Unraised history s')
      (fun _ _ => False) s := by
  have hkeeps : wp (PgliteBuild.intakeMemory packetlen) (fun _ => Unraised history)
      (fun _ => Unraised history) s :=
    (growingQuietly_intakeMemory packetlen).keeps (fun _ _ h hgrows => h.grows hgrows) h
  exact wp_mono (wp_and (intakeMemory_label packetlen s) hkeeps) (fun _ _ h => h) fun _ _ h => h.1

/-- Another state with the same history has raised nothing as well. -/
theorem Unraised.of_trace_eq {s s' : State σ} (h : Unraised history s) (htrace : s'.trace = s.trace) :
    Unraised history s' := by
  rwa [Unraised, htrace]

/-- Presenting a packet of the socket file adds nothing to the history. -/
theorem presented_trace (content : List UInt8) (s : State σ) :
    (s.presented b content).trace = s.trace := by
  unfold State.presented
  split_ifs <;> rfl

/-- The intake of a packet that is not a startup or password packet in a socket file raises nothing. -/
theorem Unraised.intake {s : State σ} (h : Unraised history s)
    (hpacket : s.comm.cmaRsize = 0 → ∀ t ∈ s.comm.pgsIn.bind List.head?, t ≠ 0 ∧ t ≠ 112) :
    wp (intake b B) (fun l s' => (l = .incoming ∨ l = .returnEarly) ∧ Unraised history s')
      (fun _ _ => False) s := by
  by_cases hsize : s.comm.cmaRsize = 0
  · cases hhead : s.comm.pgsIn.bind List.head? with
    | none =>
        refine (wp_of_eq (intake_none hsize hhead)).mpr ?_
        split_ifs
        · rw [wp_pure]
          exact ⟨Or.inr rfl, h⟩
        · have hsame : Unraised history
              { s with peek := some (s.comm.mem .cma 1), fp := s.comm.pgsIn.isSome } := h
          exact hsame.intakeMemory _
    | some t =>
        obtain ⟨h₀, h₁⟩ := hpacket hsize t hhead
        obtain ⟨content, hfile, hcontent⟩ := Option.bind_eq_some_iff.mp hhead
        obtain ⟨rest, rfl⟩ : ∃ rest, content = t :: rest := by
          cases content with
          | nil => cases hcontent
          | cons t' rest => exact ⟨rest, by simpa using hcontent⟩
        refine (wp_of_eq ((intake_file hsize hfile).trans (intakeFile_eq _))).mpr ?_
        rw [if_neg (by simpa using h₀), if_neg (by simpa using h₁)]
        exact ⟨Or.inl rfl, h.of_trace_eq (presented_trace _ _)⟩
  · rw [PgliteBuild.intake, wp_bind, wp_modify, wp_bind, wp_get, if_pos hsize, wp_bind, wp_modify]
    refine Unraised.intakeMemory ?_ _
    exact h

/-- The intake of a startup or password packet in a socket file runs an operation that can raise an
error. -/
theorem raised_intake {s : State σ} (htrace : s.trace = history) (hsize : s.comm.cmaRsize = 0)
    {t : UInt8} (hhead : s.comm.pgsIn.bind List.head? = some t) (ht : ¬(t ≠ 0 ∧ t ≠ 112)) :
    wp (intake b B) (fun _ => Raised history) (fun _ => Raised history) s := by
  obtain ⟨content, hfile, hcontent⟩ := Option.bind_eq_some_iff.mp hhead
  obtain ⟨rest, rfl⟩ : ∃ rest, content = t :: rest := by
    cases content with
    | nil => cases hcontent
    | cons t' rest => exact ⟨rest, by simpa using hcontent⟩
  have hbegin : ∀ s' : State σ, s'.trace = s.trace → s'.trace = history ++ [] := fun s' hs' => by
    rw [hs', htrace, List.append_nil]
  refine (wp_of_eq ((intake_file hsize hfile).trans (intakeFile_eq _))).mpr ?_
  by_cases h₀ : t = 0
  · rw [if_pos (by simp [h₀])]
    refine (wp_bind _ _ _ _ _).mpr (wp_mono (raised_of_raises (raises_startupAuth (b := b))
      (hbegin _ (presented_trace _ _)) (by simp)) (fun _ _ hs' => hs') fun _ _ hs' => hs')
  · have h₁ : t = 112 := by
      by_contra h₁
      exact ht ⟨h₀, h₁⟩
    rw [if_neg (by simpa using h₀), if_pos (by simp [h₁])]
    refine (wp_bind _ _ _ _ _).mpr (wp_mono (raised_of_raises (raises_startupPass B true (b := b))
      (hbegin _ (presented_trace _ _)) (by simp)) (fun _ _ hs' => hs') fun _ _ hs' => hs')

/-- The prologue delivers notifications in an activation that is not armed. -/
theorem raised_prologue {s : State σ} (htrace : s.trace = history)
    (hready : s.sendReadyForQuery = true) (hidle : B.blockState s.db = .idle)
    (hnotify : s.notifyInterruptPending = true) :
    wp (prologue b B) (fun _ => Raised history) (fun _ => Raised history) s := by
  rw [prologue, wp_bind, wp_get, if_pos hready, wp_bind, wp_get, wp_bind, wp_get,
    if_pos ⟨hidle, hnotify⟩, wp_bind]
  have hnew : s.trace = history ++ [] := by rw [htrace, List.append_nil]
  have hnot : Event.sigsetjmp ∉ ([] : List Event) := by simp
  refine wp_mono (raised_of_raises (moves_processNotifyInterrupt B) hnew hnot)
    (fun _ s' hs' => ?_) fun _ _ hs' => hs'
  · exact hs'.grows ⟨List.prefix_rfl, id⟩

/-- The intake only lets the history grow. -/
theorem growing_intake : Growing (intake b B) := by
  have hmodify : ∀ {f : State σ → State σ}, (∀ s, (f s).trace = s.trace) →
      (∀ s, s.armed = true → (f s).armed = true) → Growing (modify f : PgM σ Unit) :=
    fun htrace harmed => performs_modify fun s => ⟨by rw [htrace], harmed s⟩
  have hmemory : ∀ n, Growing (intakeMemory n : PgM σ Label) := fun n =>
    (growingQuietly_intakeMemory n).mono fun _ _ => GrowsQuietly.grows
  -- the branches on the first byte of a socket file
  have hfirst : Growing (do
      if (← get).peek = some 0 then
        startupAuth b
        pure .wireFlush
      else if (← get).peek = some 112 then
        startupPass b B true
        pure .wireFlush
      else pure .incoming : PgM σ Label) := by
    refine performs_bind performs_get fun s => performs_ite ?_ ?_
    · exact performs_bind (growing_of_moves (raises_startupAuth (b := b)).moves) fun _ => performs_pure _
    · refine performs_bind performs_get fun s => performs_ite ?_ (performs_pure _)
      exact performs_bind (growing_of_moves (raises_startupPass B true (b := b)).moves) fun _ =>
        performs_pure _
  refine performs_bind (hmodify (fun _ => rfl) fun _ => id) fun _ => ?_
  refine performs_bind performs_get fun s => performs_ite ?_ ?_
  · exact performs_bind (hmodify (fun _ => rfl) fun _ => id) fun _ => hmemory _
  · split
    · refine performs_bind (hmodify (fun _ => rfl) fun _ => id) fun _ => ?_
      refine performs_bind (hmodify (fun _ => rfl) fun _ => id) fun _ => ?_
      refine performs_bind performs_get fun s => performs_bind performs_get fun s' => ?_
      dsimp only
      split
      · exact performs_bind (hmodify (fun _ => rfl) fun _ => id) fun _ => hfirst
      · exact performs_bind (hmodify (fun _ => rfl) fun _ => id) fun _ => hfirst
    · exact performs_bind (hmodify (fun _ => rfl) fun _ => id) fun _ =>
        performs_ite (performs_pure _) (hmemory _)

/-- A computation that ends with such an operation in its history has not handled its errors. -/
theorem not_handled_of_raised {m : PgM σ Unit} {s : State σ}
    (h : wp m (fun _ => Raised history) (fun _ => Raised history) s) :
    ¬wp m (fun _ => Handled history) (fun e s' => Handled history s' ∧ e ≠ .error) s := fun hhandled =>
  not_wp_false (wp_mono (wp_and h hhandled) (fun _ _ h => h.1.not_handled h.2)
    fun _ _ h => h.1.not_handled h.2.1)

/-- A resume call with something to finish raises it unarmed. -/
theorem raised_run_resume (fuel : ℕ) {s : State σ} (hrepl : s.isRepl = false)
    (hsome : ¬NothingToFinish s) (htrace : s.trace = history) :
    wp (run b B (fuel + 2) .resumeOnError) (fun _ => Raised history) (fun _ => Raised history) s := by
  rw [run, follow, wp_bind, wp_step, block, wp_bind, wp_get, if_neg (by simp [hrepl]), wp_pure]
  exact raised_run_wireFlush fuel hsome htrace

/-- A request from its prologue on. -/
theorem handled_request_iff (hjmp : b.sigsetjmp = true) (fuel : ℕ) {s : State σ}
    (htrace : s.trace = history) :
    wp (do
        prologue b B
        let next ← intake b B
        run b B fuel next) (fun _ => Handled history) (fun e s' => Handled history s' ∧ e ≠ .error) s ↔
      (s.sendReadyForQuery = true → B.blockState s.db = .idle → s.notifyInterruptPending = false) ∧
        (s.comm.cmaRsize = 0 → ∀ t ∈ s.comm.pgsIn.bind List.head?, t ≠ 0 ∧ t ≠ 112) := by
  constructor
  · intro hhandled
    have hquiet : s.sendReadyForQuery = true → B.blockState s.db = .idle →
        s.notifyInterruptPending = false := by
      intro hready hidle
      by_contra hnotify
      refine not_handled_of_raised ?_ hhandled
      rw [wp_bind]
      refine wp_mono (raised_prologue htrace hready hidle (by simpa using hnotify))
        (fun _ s' hs' => ?_) fun _ _ hs' => hs'
      rw [wp_bind]
      exact wp_mono (raised_of_growing growing_intake hs') (fun l s'' hs'' => raised_run fuel hs'')
        fun _ _ hs'' => hs''
    refine ⟨hquiet, fun hsize t hhead => ?_⟩
    by_contra ht
    refine not_handled_of_raised ?_ hhandled
    rw [wp_bind, wp_of_ok (prologue_quiet hquiet), wp_bind]
    refine wp_mono (raised_intake ?_ hsize hhead ht) (fun l s' hs' => raised_run fuel hs')
      fun _ _ hs' => hs'
    exact htrace
  · rintro ⟨hquiet, hpacket⟩
    have hunraised : Unraised history { s with sendReadyForQuery := false } :=
      ⟨[], by simp [htrace], by simp⟩
    rw [wp_bind, wp_of_ok (prologue_quiet hquiet), wp_bind]
    refine wp_mono (hunraised.intake hpacket) (fun l s' hs' => ?_) fun _ _ h => h.elim
    obtain ⟨rfl | rfl, hs'⟩ := hs'
    · exact handled_run hjmp fuel hs' trivial
    · exact handled_run hjmp fuel hs' trivial

/-- **Errors are handled by the activation that raises them** exactly when it enters quietly. -/
theorem handlesErrors_iff (b : Build) (hjmp : b.sigsetjmp = true) (B : Backend σ) (fuel : ℕ)
    (s : State σ) : HandlesErrors b B (fuel + 2) s ↔ EntersQuietly B s := by
  have hbegin : Unraised s.trace s.begin := ⟨[], by simp [State.begin], by simp⟩
  unfold HandlesErrors EntersQuietly
  by_cases hneg : s.comm.cmaRsize < 0
  · rw [if_pos hneg, wp_of_eq (interactiveOne_resume hneg _)]
    constructor
    · intro hhandled
      by_contra hcon
      push Not at hcon
      exact not_handled_of_raised
        (raised_run_resume fuel (s := s.begin) (Bool.eq_false_iff.mpr hcon.1) hcon.2 rfl)
        hhandled
    · intro hquiet
      exact handled_run hjmp _ hbegin hquiet
  have hconnected := interactiveOne_connected (b := b) (B := B) hneg (fuel + 2)
  rw [if_neg hneg]
  by_cases hflush : s.myProcPort = true ∧ 0 < s.comm.socketData
  · have hconn : s.begin.connected b = s.begin := if_pos hflush.1
    have hdata : 0 < s.begin.comm.socketData := hflush.2
    rw [hconn, if_pos hdata] at hconnected
    rw [if_pos hflush, wp_of_eq hconnected]
    constructor
    · intro hhandled
      by_contra hcon
      exact not_handled_of_raised (raised_run_wireFlush (fuel + 1) (s := s.begin) hcon rfl) hhandled
    · intro hquiet
      exact handled_run hjmp _ hbegin hquiet
  · have hdata : ¬0 < (s.begin.connected b).comm.socketData := by
      unfold State.connected
      split_ifs with hport
      · exact fun h => hflush ⟨hport, h⟩
      · exact lt_irrefl 0
    rw [if_neg hdata] at hconnected
    rw [if_neg hflush, wp_of_eq hconnected, handled_request_iff hjmp _ (by simp [State.begin])]
    simp [State.begin]

/-- A backend whose queries all fail. -/
def failingBackend : Backend Unit :=
  .stateless fun _ _ => ([], some ⟨.other, "failed"⟩)

/-- A call of a wire client with a Query in the socket file. -/
def queryCall : State Unit :=
  useWire 1 { State.boot () with comm := { Comm.boot with pgsIn := some [81, 0, 0, 0, 5, 0] } }

/-- A Query that fails: the call enters quietly, and the error is raised and handled behind `sigsetjmp`. -/
theorem handlesErrors_query :
    EntersQuietly failingBackend queryCall ∧
      HandlesErrors .emscripten failingBackend (6 + 2) queryCall := by
  have hresume : ¬queryCall.comm.cmaRsize < 0 := by decide
  have hflush : ¬(queryCall.myProcPort = true ∧ 0 < queryCall.comm.socketData) := by decide
  have hhead : queryCall.comm.pgsIn.bind List.head? = some 81 := rfl
  have hquiet : EntersQuietly failingBackend queryCall := by
    rw [EntersQuietly, if_neg hresume, if_neg hflush, hhead]
    refine ⟨fun _ _ => rfl, fun _ t ht => ?_⟩
    rw [← Option.mem_some_iff.mp ht]
    decide
  rw [handlesErrors_iff .emscripten rfl failingBackend 6 queryCall]
  exact ⟨hquiet, hquiet⟩

/-- The first call of a wire client, with its startup packet in the socket file. -/
def startupCall : State Unit :=
  useWire 1 { State.boot () with comm := { Comm.boot with pgsIn := some [0, 0, 0, 8, 0, 3, 0, 0] } }

/-- The handshake over the socket file runs before any `sigsetjmp`. -/
theorem startupCall_not_handled : ¬HandlesErrors .emscripten .silent 8 startupCall := by
  have hconnected := interactiveOne_connected (b := .emscripten) (B := .silent) (s := startupCall)
    (by decide) 8
  have hdata : ¬0 < (startupCall.begin.connected .emscripten).comm.socketData := by decide
  rw [if_neg hdata] at hconnected
  have htrace : (startupCall.begin.opened .emscripten).trace = startupCall.trace := rfl
  intro hhandled
  rw [HandlesErrors, wp_of_eq hconnected, handled_request_iff rfl 8 htrace] at hhandled
  exact absurd rfl (hhandled.2 rfl 0 rfl).1

end PgliteBuild
