import PgliteBuild.InteractiveOne.Modes
import PgliteBuild.Session.ReplyCount

/-! # Whole messages on the connection

The code of a call puts protocol messages, one at a time, and it ends a message before it does anything else. With
a backend that does the same (`Backend.PutsMessages`) every stretch of a run puts whole messages, whatever happens
in it: errors that are caught or not, sessions that end, and calls that stop the process. So a client that reads the
connection message by message never waits for the end of one. -/

namespace PgliteBuild

open Effect Framing Runs

variable {σ α : Type} {b : Build} {B : Backend σ} {P : Event → Prop} {s s' : State σ}

/-! ## Events that a history grows by -/

/-- The history grows by events of the kind `P`. -/
def Gains (P : Event → Prop) (s s' : State σ) : Prop := ∃ es, s'.trace = s.trace ++ es ∧ ∀ e ∈ es, P e

/-- A state with the same history gains nothing. -/
theorem Gains.of_trace (h : s'.trace = s.trace) : Gains P s s' := ⟨[], by rw [h, List.append_nil], by simp⟩

/-- Every state gains nothing over itself. -/
theorem Gains.refl (P : Event → Prop) (s : State σ) : Gains P s s := .of_trace rfl

/-- What two stretches gain is of the kind that each of them gains. -/
theorem Gains.trans {s'' : State σ} (h : Gains P s s') (h' : Gains P s' s'') : Gains P s s'' := by
  obtain ⟨es, htrace, hes⟩ := h
  obtain ⟨es', htrace', hes'⟩ := h'
  refine ⟨es ++ es', ?_, List.forall_mem_append.mpr ⟨hes, hes'⟩⟩
  rw [htrace', htrace, List.append_assoc]

/-- `Gains` allows every step of code that leaves the modes alone. -/
theorem sees_gains (P : Event → Prop) : SeesModes P (@Gains σ P) where
  ofComm _ _ := .of_trace rfl
  ofTrace _ e he := ⟨[e], rfl, fun _ he' => List.mem_singleton.mp he' ▸ he⟩
  ofError _ _ := .of_trace rfl
  ofVars _ _ h := .of_trace h.trace

/-- The steps of a computation make one. -/
theorem gains_spec {m : PgM σ α} (h : Performs (Gains P) m) (s : State σ) :
    wp m (fun _ => Gains P s) (fun _ => Gains P s) s :=
  h.keeps (fun _ _ hs hstep => hs.trans hstep) (.refl P s)

/-! ## The code of a call -/

/-- The message switch gains events of the kind `P`, with the end of the session as well. -/
theorem gains_protoSwitch (hB : B.Puts P) (firstchar : Option FrontendMsg) :
    Performs (Gains P) (protoSwitch b B firstchar) := by
  have hsees := sees_gains (σ := σ) P
  have hclose : Performs (Gains P) (do
      closeConnection
      pure true : PgM σ Bool) :=
    performs_bind (performs_modify fun _ => .of_trace rfl) fun _ => performs_pure _
  cases firstchar with
  | none =>
      refine performs_bind (hsees.record (hB.quiet _ rfl)) fun _ => ?_
      exact performs_bind performs_get fun _ => hclose
  | some m =>
      by_cases hm : m = .terminate
      · subst hm
        refine performs_bind (hsees.record (hB.quiet _ rfl)) fun _ => performs_bind performs_get fun _ => ?_
        exact performs_bind (hsees.record (hB.quiet _ rfl)) fun _ => hclose
      · exact hsees.protoSwitch hB hm

/-- A round of the loop gains events of the kind `P`. -/
theorem gains_loopRound (hB : B.Puts P) : Performs (Gains P) (loopRound b B) := by
  have hsees := sees_gains (σ := σ) P
  have hact : ∀ firstchar, Performs (Gains P) (actOn b B firstchar) := by
    intro firstchar
    refine performs_bind performs_get fun s => performs_ite (performs_pure _) ?_
    refine performs_bind (gains_protoSwitch hB firstchar) fun shortcut => ?_
    apply performs_ite
    · exact performs_pure _
    · exact performs_bind (hsees.betweenMessages hB) fun _ => performs_pure _
  intro s
  have hround : Gains P s s.round := by
    unfold State.round
    split_ifs <;> exact .of_trace rfl
  apply (wp_of_eq (loopRound_eq b B s)).mpr
  have hrest : Performs (Gains P) (if s.isWire && s.peek = some 0 then do
        startupAuth b
        pure .resumeOnError
      else if s.isWire && s.peek = some 112 then do
        startupPass b B true
        pure .resumeOnError
      else do
        let firstchar ← nextMessage b B
        actOn b B firstchar : PgM σ Label) := by
    apply performs_ite
    · exact performs_bind (hsees.startupAuth hB) fun _ => performs_pure _
    apply performs_ite
    · exact performs_bind (hsees.startupPass hB true) fun _ => performs_pure _
    · exact performs_bind (hsees.nextMessage hB) hact
  exact wp_mono (hrest s.round) (fun _ _ h => .head hround h) fun _ _ h => .head hround h

/-- The code at every label gains events of the kind `P`. -/
theorem gains_block (hB : B.Puts P) (l : Label) : Performs (Gains P) (block b B l) := by
  have hsees := sees_gains (σ := σ) P
  cases l with
  | incoming =>
      rw [block]
      split_ifs
      · refine performs_bind (performs_modify fun _ => .of_trace rfl) fun _ => ?_
        exact performs_bind (hsees.record (hB.quiet _ rfl)) fun _ => performs_pure _
      · exact performs_bind (performs_pure _) fun _ => performs_pure _
  | loop =>
      refine performs_bind performs_get fun s => performs_ite ?_ (performs_pure _)
      exact performs_bind (gains_loopRound hB) fun _ => performs_pure _
  | resumeOnError =>
      refine performs_bind performs_get fun s => performs_ite ?_ (performs_pure _)
      exact performs_bind (hsees.record (hB.quiet _ rfl)) fun _ => performs_pure _
  | wireFlush => exact performs_bind (hsees.wireFlush hB) fun _ => performs_pure _
  | returnEarly => exact performs_bind (performs_modify fun _ => .of_trace rfl) fun _ => performs_pure _

/-- The handler gains events of the kind `P`. -/
theorem gains_handler (hB : B.Puts P) : Performs (Gains P) (handler b B) := by
  apply performs_handler
  · exact (sees_gains P).emitErrorReport hB
  · exact fun _ => .of_trace rfl
  · exact fun _ => .of_trace rfl
  · exact fun _ => .of_trace rfl
  · exact fun _ => .of_trace rfl
  · exact fun _ => .of_trace rfl

/-- The code at a label and the handler of its error. -/
theorem gains_step (hB : B.Puts P) (l : Label) (s : State σ) :
    wp (step b B l) (fun _ => Gains P s) (fun _ => Gains P s) s := by
  have hblock := gains_spec (gains_block (b := b) hB l) s
  unfold wp at hblock ⊢
  rw [step]
  cases hrun : block b B l s with
  | ok next s' => simpa [hrun] using hblock
  | error e s' =>
      have hbefore : Gains P s s' := by simpa [hrun] using hblock
      cases e with
      | error =>
          dsimp only
          split_ifs
          · have hhandled := gains_spec (gains_handler (b := b) hB) s'
            unfold wp at hhandled
            cases hhandler : handler b B s' with
            | ok next s'' => exact hbefore.trans (by simpa [hhandler] using hhandled)
            | error e s'' => exact hbefore.trans (by simpa [hhandler] using hhandled)
          · exact hbefore
      | fatal _ | abort | trap | outOfFuel => exact hbefore

/-! ## Runs -/

/-- The entry of a call gains events of the kind `P`. -/
theorem gains_entered (hB : B.Puts P) (s : State σ) : Gains P s (entered b B s).state := by
  apply entered_spec (P := fun c => Gains P s c.state)
  refine wp_mono (gains_spec ((sees_gains P).entry hB) s) (fun _ _ h => h) fun e _ h => ?_
  split_ifs
  · exact h
  · exact h

/-- A step of the code, with the jump of an error, gains events of the kind `P`. -/
theorem gains_continued (hB : B.Puts P) (l : Label) (s : State σ) : Gains P s (continued b B l s).state := by
  apply continued_spec (P := fun c => Gains P s c.state)
  refine wp_mono (gains_step hB l s) (fun next _ h => ?_) fun e _ h => ?_
  · cases next with
    | none => exact h
    | some l' => exact h
  · split_ifs
    · exact h
    · exact h

/-- **What a step of the machine adds to the history** is of the kind that the backend puts. -/
theorem machine_gains (hB : B.Puts P) {c c' : Config σ} {i : HostStep} (h : Machine b B c i c') :
    Gains P c.state c'.state := by
  cases h with
  | @useWire state s =>
      apply Gains.of_trace
      show (useWire state s).trace = s.trace
      unfold useWire
      split_ifs <;> rfl
  | @request t packet s =>
      have hrequest : Gains P s (s.request t packet) := by
        cases t <;> exact .of_trace rfl
      exact hrequest.trans (gains_entered hB _)
  | @resume s =>
      have hresume : Gains P s (interactiveWrite (-1) s) := .of_trace rfl
      exact hresume.trans (gains_entered hB _)
  | code => exact gains_continued hB _ _

/-- Every stretch of a run gains events of the kind `P`. -/
theorem path_gains (hB : B.Puts P) {c c' : Config σ} {is : List HostStep} (h : Path (Machine b B) c is c') :
    Gains P c.state c'.state := by
  induction h with
  | nil => exact .refl P _
  | cons hfirst _ ih => exact (machine_gains hB hfirst).trans ih

/-! ## Whole messages -/

/-- The bytes are whole messages. -/
def Whole (u : List UInt8) : Prop := ∃ ms, decodeMessages u = some ms

/-- No bytes are whole messages. -/
theorem whole_nil : Whole [] := ⟨[], rfl⟩

/-- Whole messages behind whole messages are whole messages. -/
theorem Whole.append {u v : List UInt8} (h : Whole u) (h' : Whole v) : Whole (u ++ v) := by
  obtain ⟨ms, hms⟩ := h
  obtain ⟨ms', hms'⟩ := h'
  exact ⟨ms ++ ms', decodeMessages_append hms hms'⟩

/-- A type byte and the encoding of a body that fits its length word are a whole message. -/
theorem whole_message {t : UInt8} {body : List UInt8} (h : body.length + 4 < 4294967296) :
    Whole (t :: encodeBody body) := by
  refine ⟨[(t, body)], decodeMessages_eq_some_iff.mpr ⟨?_, List.forall_mem_singleton.mpr h⟩⟩
  rw [encodeMessages_cons, encodeMessages_nil, List.append_nil]

/-- The backend puts whole messages, whose length words count them. -/
structure Backend.PutsMessages (B : Backend σ) : Prop where
  exec : ∀ d m body bytes, Action.putbytes bytes ∈ (B.exec d m body).actions → Whole bytes
  notify : ∀ d bytes, Action.putbytes bytes ∈ (B.processNotify d).actions → Whole bytes
  error : ∀ e, (B.errorBody e).length + 4 < 4294967296
  guc : ∀ d, ∀ body ∈ B.gucReport d, body.length + 4 < 4294967296
  key : B.backendKey.length + 4 < 4294967296

/-- The messages that the code puts itself are as whole as the backend's. -/
theorem Backend.PutsMessages.puts (hB : B.PutsMessages) : B.Puts fun e => Whole e.bytes where
  quiet e he := by
    rw [he]
    exact whole_nil
  exec := hB.exec
  notify := hB.notify
  error e := whole_message (hB.error e)
  ready _ := whole_message (by simp)
  close := whole_message (by decide)
  challenge := whole_message (by decide)
  accept := whole_message (by decide)
  guc d body hbody := whole_message (hB.guc d body hbody)
  key := whole_message hB.key

/-- Growing by whole messages puts whole messages. -/
theorem Gains.sent (h : Gains (fun e => Whole e.bytes) s s') : ∃ put, s'.sent = s.sent ++ put ∧ Whole put := by
  obtain ⟨es, htrace, hes⟩ := h
  refine ⟨es.flatMap Event.bytes, ?_, ?_⟩
  · rw [State.sent, State.sent, htrace, List.flatMap_append]
  · clear htrace
    induction es with
    | nil => exact whole_nil
    | cons e es ih =>
        obtain ⟨hfirst, hrest⟩ := List.forall_mem_cons.mp hes
        exact hfirst.append (ih hrest)

/-- **Every stretch of every run puts whole messages**, and a reader of the connection reads them back. -/
theorem messages_decode (hB : B.PutsMessages) {c c' : Config σ} {is : List HostStep}
    (h : Path (Machine b B) c is c') :
    ∃ put ms, c'.state.sent = c.state.sent ++ put ∧ decodeMessages put = some ms ∧ put = encodeMessages ms := by
  obtain ⟨put, hput, ms, hms⟩ := (path_gains hB.puts h).sent
  exact ⟨put, ms, hput, hms, (decodeMessages_eq_some_iff.mp hms).1⟩

/-- A backend that completes every message. -/
def Backend.completing : Backend Unit :=
  .stateless fun m _ => ([.putbytes (67 :: encodeBody [m.code, 0])], none)

/-- The backend that completes every query puts whole messages. -/
theorem putsMessages_completing : Backend.completing.PutsMessages where
  exec _ m body bytes hbytes := by
    obtain rfl : bytes = 67 :: encodeBody [m.code, 0] := by
      simpa [Backend.completing, Backend.stateless] using hbytes
    exact whole_message (by simp)
  notify _ _ hbytes := by simp [Backend.completing, Backend.stateless] at hbytes
  error _ := by simp [Backend.completing, Backend.stateless]
  guc _ _ hbody := by simp [Backend.completing, Backend.stateless] at hbody
  key := by decide

/-- A Query is completed, and the session is ready again. -/
theorem messages_decode_query : ∃ c : Config Unit, ∃ put ms,
    Path (Machine .emscripten .completing) (.idle (State.boot ()))
      (.useWire 1 :: .request .cma [81, 0, 0, 0, 5, 0] :: List.replicate 6 .code) c ∧
    c.state.sent = [] ++ put ∧ decodeMessages put = some ms ∧ ms = [(67, [81, 0]), (90, [73])] := by
  have hran : ((Config.idle (State.boot ())).runs .emscripten .completing (fun _ _ => true)
      (.useWire 1 :: .request .cma [81, 0, 0, 0, 5, 0] :: List.replicate 6 .code)).map (fun c => c.state.sent) =
        some (encodeMessages [(67, [81, 0]), (90, [73])]) := by decide +kernel
  obtain ⟨c, hc, hsent⟩ := Option.map_eq_some_iff.mp hran
  have hrun := (reaches_of_runs _ _ hc).1.path
  obtain ⟨put, ms, hput, hms, -⟩ := messages_decode putsMessages_completing hrun
  refine ⟨c, put, ms, hrun, hput, hms, ?_⟩
  have hboot : (Config.idle (State.boot ())).state.sent = [] := rfl
  rw [hboot, List.nil_append, hsent] at hput
  have hread : decodeMessages (encodeMessages [(67, [81, 0]), (90, [73])]) = some [(67, [81, 0]), (90, [73])] := by
    decide
  rw [hput, hms] at hread
  exact Option.some.inj hread

end PgliteBuild
