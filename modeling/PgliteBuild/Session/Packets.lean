import PgliteBuild.Foundation.Runs
import PgliteBuild.Session.ErrorBatch
import PgliteBuild.Session.Transports

/-! # A stream of messages, however it is cut into packets

The host hands messages over in packets, and `interactive_one` decides by the end of a packet when ReadyForQuery is
put and when notifications are delivered. The conversation that results is that of the stream of messages alone
(`Mode.transcript`): where the packets end, and whether they come in the memory area or in the socket file, cannot be
told from the dispatches and the replies, as long as only extended-query messages fail (`packets_transcribed`). -/

namespace PgliteBuild

open Framing Runs

variable {σ : Type} {b : Build} {B : Backend σ} {n p : ℕ} {t : Turn} {ts : List Turn} {more : ℕ → Bool} {S : Session σ}
  {M : Mode σ}

/-! ## The conversation of a stream -/

namespace Mode

variable (B : Backend σ)

/-- What a message adds to the conversation: its dispatch and its output, and ReadyForQuery or the error behind it. -/
def speech (M : Mode σ) (m : Msg) : List Event :=
  if M.skips m.kind then []
  else
    .dispatch m.kind m.body :: (B.output M.db m ++
      match (B.answer M.db m).error with
      | none => if m.kind.answersReady then [B.readyPut (B.answer M.db m).next] else []
      | some e => [.put .error (69 :: encodeBody (B.errorBody e))])

/-- The conversation of a stream of messages. -/
def transcript : Mode σ → List Turn → List Event
  | _, [] => []
  | M, t :: ts => M.speech B t.toMsg ++ transcript (M.step B t.toMsg) ts

/-- The mode behind a stream of messages. -/
def after : Mode σ → List Turn → Mode σ
  | M, [] => M
  | M, t :: ts => after (M.step B t.toMsg) ts

/-- No message ends the session, and only extended-query messages fail. -/
def Forgiving : Mode σ → List Turn → Prop
  | _, [] => True
  | M, t :: ts => t.kind ≠ .terminate ∧
    (M.skips t.kind = false → (B.answer M.db t.toMsg).error ≠ none → t.kind.extended = true) ∧
      Forgiving (M.step B t.toMsg) ts

/-- The transcript of two packets is that of the first, and that of the second in the mode behind the first. -/
theorem transcript_append (M : Mode σ) (ts ts' : List Turn) :
    M.transcript B (ts ++ ts') = M.transcript B ts ++ (M.after B ts).transcript B ts' := by
  induction ts generalizing M with
  | nil => rfl
  | cons t ts ih => rw [List.cons_append, transcript, transcript, after, ih, List.append_assoc]

/-- The mode behind two packets is that behind the second in the mode behind the first. -/
theorem after_append (M : Mode σ) (ts ts' : List Turn) : M.after B (ts ++ ts') = (M.after B ts).after B ts' := by
  induction ts generalizing M with
  | nil => rfl
  | cons t ts ih => rw [List.cons_append, after, after, ih]

/-- Two packets are forgiving if the first is, and the second in the mode behind the first. -/
theorem forgiving_append {M : Mode σ} {ts ts' : List Turn} :
    M.Forgiving B (ts ++ ts') ↔ M.Forgiving B ts ∧ (M.after B ts).Forgiving B ts' := by
  induction ts generalizing M with
  | nil => exact (iff_of_eq (true_and _)).symm
  | cons t ts ih => rw [List.cons_append, Forgiving, Forgiving, after, ih, and_assoc, and_assoc]

/-- Two packets cover their reads if the first does, and the second in the mode behind the first. -/
theorem covers_append {M : Mode σ} {ts ts' : List Turn} (hkinds : ∀ t ∈ ts, t.kind ≠ .terminate) :
    Covers B M (ts ++ ts') ↔ Covers B M ts ∧ Covers B (M.after B ts) ts' := by
  induction ts generalizing M with
  | nil => exact (iff_of_eq (true_and _)).symm
  | cons t ts ih =>
      have hk : t.kind ≠ .terminate := hkinds t (List.mem_cons_self ..)
      rw [List.cons_append, Covers, Covers, after, imp_iff_right hk, imp_iff_right hk,
        ih fun t' ht' => hkinds t' (List.mem_cons_of_mem t ht'), and_assoc]

/-- A forgiving packet holds no Terminate. -/
theorem Forgiving.kinds (h : M.Forgiving B ts) : ∀ t ∈ ts, t.kind ≠ .terminate := by
  induction ts generalizing M with
  | nil => exact nofun
  | cons t ts ih =>
      obtain ⟨hk, -, hrest⟩ := h
      intro t' ht'
      rcases List.mem_cons.mp ht' with rfl | ht'
      · exact hk
      · exact ih hrest t' ht'

end Mode

/-! ## ReadyForQuery that is owed -/

/-- The history with the ReadyForQuery that is owed. -/
def Session.owing (B : Backend σ) (S : Session σ) : List Event :=
  S.out ++ if S.sendReadyForQuery then [B.readyPut S.db] else []

/-- A session that owes no ReadyForQuery has put all that it says. -/
theorem Session.owing_of_not (hready : S.sendReadyForQuery = false) : S.owing B = S.out := by
  rw [Session.owing, hready, if_neg Bool.false_ne_true, List.append_nil]

/-- Putting what is owed changes nothing about it. -/
theorem Session.owing_between (B : Backend σ) (S : Session σ) (go : Bool) : (S.between B go).owing B = S.owing B := by
  unfold Session.between
  split_ifs with h
  · obtain ⟨-, hready⟩ := Bool.and_eq_true_iff.mp h
    rw [Session.owing, Session.owing, hready, if_neg Bool.false_ne_true, if_pos rfl, List.append_nil]
  · rfl

/-- A message that succeeds says what it says in its mode. -/
theorem Session.owing_done (hnot : S.skips t.kind = false) (hready : S.sendReadyForQuery = false)
    (herror : (B.answer S.db t.toMsg).error = none) (before after : Bool) :
    (S.done B t.toMsg before after).owing B = S.owing B ++ S.mode.speech B t.toMsg := by
  have hskips : ¬S.mode.skips t.kind = true := by
    rw [Bool.not_eq_true]
    exact hnot
  have herror' : (B.answer S.mode.db t.toMsg).error = none := herror
  rw [done_eq hready, Session.owing_between, Session.owing_of_not hready, Mode.speech, if_neg hskips, herror']
  simp only [Session.owing, Session.handled, Session.mode, List.append_assoc, List.cons_append]

/-- An extended-query message that fails says what it says in its mode. -/
theorem Session.owing_cleared (hnot : S.skips t.kind = false) (hready : S.sendReadyForQuery = false)
    (hextended : t.kind.extended = true) {e : ErrorReport} (herror : (B.answer S.db t.toMsg).error = some e) :
    ((S.handled B t.toMsg).cleared B t.toMsg e).sendReadyForQuery = false ∧
      ((S.handled B t.toMsg).cleared B t.toMsg e).owing B = S.owing B ++ S.mode.speech B t.toMsg := by
  have hskips : ¬S.mode.skips t.kind = true := by
    rw [Bool.not_eq_true]
    exact hnot
  have herror' : (B.answer S.mode.db t.toMsg).error = some e := herror
  have hcleared : ((S.handled B t.toMsg).cleared B t.toMsg e).sendReadyForQuery = false := by
    simp [Session.cleared, Session.handled, hready, hextended]
  refine ⟨hcleared, ?_⟩
  rw [Session.owing_of_not hcleared, Session.owing_of_not hready, Mode.speech, if_neg hskips, herror']
  simp only [Session.cleared, Session.handled, Session.mode, List.append_assoc, List.cons_append]

/-! ## One packet -/

/-- From position `p` on data is buffered at the ends of all turns but the last one. -/
def Continues (more : ℕ → Bool) : ℕ → List Turn → Prop
  | _, [] => True
  | p, t :: ts => more (p + t.encode.length) = (!ts.isEmpty) ∧ (ts ≠ [] → more (p + t.toMsg.encode.length) = true) ∧
    Continues more (p + t.encode.length) ts

/-- The turn behind a turn is played, if there is one. -/
theorem Continues.onward (h : Continues more p (t :: ts)) (b : Build) (B : Backend σ) (S : Session σ)
    {pipelining : Bool} (hflag : more (p + t.toMsg.encode.length) = true → pipelining = true) :
    S.onward b B more p t ts pipelining = S.play b B more (p + t.encode.length) ts := by
  obtain ⟨hafter, hbefore, -⟩ := h
  by_cases hts : ts = []
  · subst hts
    exact onward_last more p t pipelining S
  · have hmore : (!ts.isEmpty) = true := by
      rw [Bool.not_eq_true', List.isEmpty_eq_false_iff]
      exact hts
    rw [Session.onward, hflag (hbefore hts), hafter, hmore]
    rfl

/-- In the memory area the loop goes on up to the end: all of the packet is buffered. -/
theorem continues_cma (b : Build) (hn : p + (encodeTurns ts).length = n) :
    Continues (Transport.more b .cma n) p ts := by
  induction ts generalizing p with
  | nil => exact trivial
  | cons t ts ih =>
      have hlen : p + t.encode.length + (encodeTurns ts).length = n := by
        rw [encodeTurns_cons, List.length_append] at hn
        omega
      refine ⟨more_after hn, fun hts => ?_, ih hlen⟩
      exact (Bool.and_eq_true_iff.mp (more_cma_of_ne_nil hn hts)).1

/-- In the socket file the loop goes on up to the end of an unbroken packet. -/
theorem continues_file (hn : p + (encodeTurns ts).length = n) (hkinds : ∀ t ∈ ts, t.kind ≠ .terminate)
    (hunbroken : Unbroken b p ts) : Continues (Transport.more b .file n) p ts := by
  induction ts generalizing p with
  | nil => exact trivial
  | cons t ts ih =>
      have hlen : p + t.encode.length + (encodeTurns ts).length = n := by
        rw [encodeTurns_cons, List.length_append] at hn
        omega
      by_cases hts : ts = []
      · -- the last turn ends the packet, so nothing is buffered behind it
        subst hts
        have hend : p + t.encode.length = n := by
          rw [encodeTurns_nil, List.length_nil, Nat.add_zero] at hlen
          exact hlen
        refine ⟨?_, fun hne => absurd rfl hne, trivial⟩
        simp [Transport.more, Transport.Cut, hend]
      · obtain ⟨hfree, hrest⟩ := hunbroken (hkinds t (List.mem_cons_self ..)) hts
        obtain ⟨hbefore, hafter⟩ := Bool.and_eq_true_iff.mp ((more_file hn hts).mpr hfree)
        have hmore : (!ts.isEmpty) = true := by
          rw [Bool.not_eq_true', List.isEmpty_eq_false_iff]
          exact hts
        exact ⟨hafter.trans hmore.symm, fun _ => hbefore, ih hlen (fun t' ht' => hkinds t' (List.mem_cons_of_mem t ht')) hrest⟩

/-- **A packet is played as its messages are transcribed.** -/
theorem play_transcribes (hb : b.sigsetjmp = true) (hready : ts ≠ [] → S.sendReadyForQuery = false) (hgo : Continues more p ts)
    (hforgiving : S.mode.Forgiving B ts) (hcanary : S.canaryEx + S.mode.failures B ts ≤ 9) :
    ∃ S', S.play b B more p ts = .flush S' [] ∧ S'.mode = S.mode.after B ts ∧
      S'.owing B = S.owing B ++ S.mode.transcript B ts := by
  induction ts generalizing p S with
  | nil => exact ⟨S, rfl, rfl, (List.append_nil _).symm⟩
  | cons t ts ih =>
      have hquiet : S.sendReadyForQuery = false := hready (List.cons_ne_nil t ts)
      obtain ⟨hk, hextended, hrest⟩ := hforgiving
      obtain ⟨hafter, hbefore, hgo'⟩ := hgo
      -- the rest of the packet is played from where the turn left the session
      have hnext : ∀ (pipelining : Bool) (S₁ : Session σ), (ts ≠ [] → S₁.sendReadyForQuery = false) →
          S₁.mode = S.mode.step B t.toMsg → S₁.owing B = S.owing B ++ S.mode.speech B t.toMsg →
          S₁.canaryEx + (S.mode.step B t.toMsg).failures B ts ≤ 9 →
          (more (p + t.toMsg.encode.length) = true → pipelining = true) →
          S.play b B more p (t :: ts) = S₁.onward b B more p t ts pipelining →
          ∃ S', S.play b B more p (t :: ts) = .flush S' [] ∧ S'.mode = S.mode.after B (t :: ts) ∧
            S'.owing B = S.owing B ++ S.mode.transcript B (t :: ts) := by
        intro pipelining S₁ hready₁ hmode hspeech hfew hflag hplay
        obtain ⟨S', hflush, hmode', hout⟩ := ih hready₁ hgo' (by rwa [hmode]) (by rwa [hmode])
        rw [Continues.onward ⟨hafter, hbefore, hgo'⟩ b B S₁ hflag] at hplay
        refine ⟨S', hplay.trans hflush, ?_, ?_⟩
        · rw [hmode', hmode]
          rfl
        · rw [hout, hmode, hspeech, List.append_assoc]
          rfl
      by_cases hs : S.skips t.kind = true
      · -- up to the next Sync a skipped message says nothing
        have hskips : S.mode.skips t.kind = true := hs
        have hstep := Mode.step_of_skips B S t.toMsg hs
        refine hnext _ S (fun _ => hquiet) hstep.symm ?_ ?_ id (play_skipped b B _ p t ts S hs)
        · rw [Mode.speech, if_pos hskips, List.append_nil]
        · rw [Mode.failures] at hcanary
          omega
      have hnot : S.skips t.kind = false := by simpa using hs
      cases herror : (B.answer S.db t.toMsg).error with
      | none =>
          refine hnext _ _ (fun hts => done_sendReadyForQuery _ ?_) (S.mode_done B t.toMsg hnot herror _ _)
            (Session.owing_done hnot hquiet herror _ _) ?_ id (play_done b B _ p t ts S hnot hk herror)
          · rw [hbefore hts, hafter, Bool.true_and, Bool.not_eq_true', List.isEmpty_eq_false_iff]
            exact hts
          · have hsame : (S.done B t.toMsg (more (p + t.toMsg.encode.length))
                (more (p + t.encode.length))).canaryEx = S.canaryEx := between_canaryEx B _ _
            rw [hsame]
            rw [Mode.failures] at hcanary
            omega
      | some e =>
          have hfails : (B.answer S.db t.toMsg).error ≠ none := fun hnone => by
            rw [herror] at hnone
            cases hnone
          obtain ⟨hready', hspeech⟩ := Session.owing_cleared hnot hquiet (hextended hnot hfails) herror
          have hmode := S.mode_cleared B t.toMsg hnot herror
          by_cases hts : ts = []
          · -- an error in the last message goes to `wire_flush`, not through the count of the handler
            subst hts
            have hplay := play_failed_last b B more p t [] S hb hnot hk herror (hafter.trans rfl)
            exact ⟨_, hplay, hmode, by rw [hspeech, Mode.transcript, Mode.transcript, List.append_nil]⟩
          · have hmore : more (p + t.encode.length) = true := by
              rw [hafter, Bool.not_eq_true', List.isEmpty_eq_false_iff]
              exact hts
            -- one more error that the handler counts
            have hcount : (!S.mode.skips t.kind && (B.answer S.mode.db t.toMsg).error.isSome && !ts.isEmpty) = true := by
              have herror' : (B.answer S.mode.db t.toMsg).error = some e := herror
              have hnot' : S.mode.skips t.kind = false := hnot
              rw [herror', hnot', ← hafter, hmore]
              rfl
            rw [Mode.failures, if_pos hcount] at hcanary
            exact hnext _ { (S.handled B t.toMsg).cleared B t.toMsg e with canaryEx := S.canaryEx + 1 }
              (fun _ => hready') hmode hspeech (by show S.canaryEx + 1 + _ ≤ 9; omega)
              (fun h => by rw [h, Bool.true_or]) (play_failed b B more p t ts S hb hnot hk herror hmore (by omega))

/-! ## Notifications aside -/

/-- What a conversation holds besides notifications. -/
def Event.spoken : Event → Bool
  | put .notification _ => false
  | sigsetjmp | raising _ | dispatch _ _ | put _ _ | wireFlush | rename | prompt => true

/-- What is put on other behalf than that of notifications is spoken. -/
theorem spoken_of_putBy {sources : List Source} {es : List Event} (h : PutBy sources es)
    (hsources : .notification ∉ sources) : es.filter Event.spoken = es := by
  refine List.filter_eq_self.mpr fun e he => ?_
  obtain ⟨source, hsource, bytes, rfl⟩ := h e he
  cases source with
  | notification => exact absurd hsource hsources
  | message | error | ready | auth => rfl

/-- Notifications are not spoken. -/
theorem spoken_of_notification {es : List Event} (h : PutBy [.notification] es) : es.filter Event.spoken = [] := by
  refine List.filter_eq_nil_iff.mpr fun e he => ?_
  obtain ⟨source, hsource, bytes, rfl⟩ := h e he
  obtain rfl : source = .notification := List.mem_singleton.mp hsource
  exact nofun

/-- Behind a dispatch the message speaks, ReadyForQuery is put, or the error. -/
theorem Mode.speech_putBy (B : Backend σ) (M : Mode σ) (m : Msg) :
    M.speech B m = [] ∨ ∃ es, M.speech B m = .dispatch m.kind m.body :: es ∧ PutBy [.message, .ready, .error] es := by
  unfold Mode.speech
  by_cases hs : M.skips m.kind = true
  · exact .inl (if_pos hs)
  rw [if_neg hs]
  refine .inr ⟨_, rfl, ?_⟩
  have houtput := putBy_output B M.db m
  cases (B.answer M.db m).error with
  | none =>
      dsimp only
      split_ifs
      · exact (houtput.append (PutBy.singleton .ready _)).mono (by simp)
      · rw [List.append_nil]
        exact houtput.mono (by simp)
  | some e => exact (houtput.append (PutBy.singleton .error _)).mono (by simp)

/-- A conversation holds no notifications. -/
theorem Mode.spoken_transcript (B : Backend σ) (M : Mode σ) (ts : List Turn) :
    (M.transcript B ts).filter Event.spoken = M.transcript B ts := by
  induction ts generalizing M with
  | nil => rfl
  | cons t ts ih =>
      rw [Mode.transcript, List.filter_append, ih]
      rcases M.speech_putBy B t.toMsg with hnil | ⟨es, hspeech, hput⟩
      · rw [hnil, List.filter_nil]
      · rw [hspeech, List.filter_cons_of_pos rfl, spoken_of_putBy hput (by simp)]

/-- The delivery of notifications leaves the session as it is. -/
def NeutralNotify (B : Backend σ) : Prop := ∀ d, (B.processNotify d).next = d

/-- The end of a packet adds notifications to what is owed. -/
theorem finished_spoken (hneutral : NeutralNotify B) (S : Session σ) :
    (S.finished B).mode = S.mode ∧ (S.finished B).out.filter Event.spoken = (S.owing B).filter Event.spoken := by
  have hdb : (S.notified B).db = S.db := by
    unfold Session.notified
    split_ifs
    · exact hneutral S.db
    · exact hneutral S.db
    · rfl
  have hskip : (S.notified B).ignoreTillSync = S.ignoreTillSync := by
    unfold Session.notified
    split_ifs <;> rfl
  obtain ⟨notes, hnotes, hput⟩ := notified_out B S
  constructor
  · rw [Session.finished, Session.mode, between_db, between_ignoreTillSync, hdb, hskip]
    rfl
  · have howing : (S.finished B).out = (S.notified B).owing B := by
      rw [← Session.owing_of_not (finished_sendReadyForQuery B S), Session.finished, Session.owing_between]
    rw [howing, Session.owing, Session.owing, notified_sendReadyForQuery, hdb, hnotes, List.filter_append,
      List.filter_append, List.filter_append, spoken_of_notification hput, List.append_nil]

/-! ## Packets -/

/-- A packet of whole turns that the socket file does not break. -/
structure Packet (b : Build) where
  transport : Transport
  turns : List Turn
  nonempty : turns ≠ []
  unbroken : transport = .file → Unbroken b 0 turns

/-- A call with the packet that returns. -/
def ServesPacket (b : Build) (B : Backend σ) (s : State σ) (packet : Packet b) (s' : State σ) : Prop :=
  Calls b B (s.request packet.transport (encodeTurns packet.turns)) (.ok () s')

/-- One call adds the transcript of its packet. -/
theorem servesPacket_transcribed {s : State σ} (hb : b.sigsetjmp = true) (hquiet : QuietNotify B)
    (hneutral : NeutralNotify B) (hidle : Idle B s) (packet : Packet b)
    (hforgiving : s.session.mode.Forgiving B packet.turns) (hcovers : Covers B s.session.mode packet.turns)
    (hfew : FewErrors B s packet.turns) :
    ∃ s', ServesPacket b B s packet s' ∧ Idle B s' ∧ s'.session.mode = s.session.mode.after B packet.turns ∧
      s'.session.out.filter Event.spoken =
        s.session.out.filter Event.spoken ++ s.session.mode.transcript B packet.turns := by
  obtain ⟨transport, ts, hts, hunbroken⟩ := packet
  have hn : 0 + (encodeTurns ts).length = (encodeTurns ts).length := Nat.zero_add _
  have hgo : Continues (transport.more b (encodeTurns ts).length) 0 ts := by
    cases transport with
    | cma => exact continues_cma b hn
    | file => exact continues_file hn hforgiving.kinds (hunbroken rfl)
  have hcanary : s.session.opening.canaryEx = 0 := hidle.canary
  have hcount : s.session.opening.canaryEx + s.session.opening.mode.failures B ts ≤ 9 := by
    rw [hcanary, Nat.zero_add]
    exact hfew
  obtain ⟨S, hplay, hmode, hout⟩ := play_transcribes (S := s.session.opening) hb (fun _ => rfl) hgo hforgiving hcount
  have hcall := call_packet (b := b) hidle hquiet transport hts hcovers
  rw [State.plays, hplay] at hcall
  obtain ⟨s', hcalls, hanswered⟩ := hcall
  obtain ⟨hsame, hspoken⟩ := finished_spoken hneutral S
  have hsession := hanswered.session
  refine ⟨s', hcalls, hanswered.idle, ?_, ?_⟩
  · rw [hsession]
    exact hsame.trans hmode
  · rw [hsession]
    apply hspoken.trans
    rw [hout, List.filter_append, Mode.spoken_transcript, Session.owing_of_not rfl]
    rfl

/-! ## Runs of packets -/

/-- At most nine messages of each packet fail with data left behind them. -/
def Patient (B : Backend σ) : Mode σ → List (Packet b) → Prop
  | _, [] => True
  | M, packet :: packets => M.failures B packet.turns ≤ 9 ∧ Patient B (M.after B packet.turns) packets

/-- **However a stream of messages is cut into packets, and whichever way they come, the conversation is that of the
stream**: every packet is served, and besides notifications the dispatches and the replies are the transcript of the
messages. Only extended-query messages fail, and at most nine in a packet. -/
theorem packets_transcribed {s : State σ} (hb : b.sigsetjmp = true) (hquiet : QuietNotify B)
    (hneutral : NeutralNotify B) (hidle : Idle B s) {packets : List (Packet b)}
    (hforgiving : s.session.mode.Forgiving B (packets.flatMap Packet.turns))
    (hcovers : Covers B s.session.mode (packets.flatMap Packet.turns)) (hpatient : Patient B s.session.mode packets) :
    ∃ s', Path (ServesPacket b B) s packets s' ∧
      s'.session.mode = s.session.mode.after B (packets.flatMap Packet.turns) ∧
      s'.session.out.filter Event.spoken =
        s.session.out.filter Event.spoken ++ s.session.mode.transcript B (packets.flatMap Packet.turns) := by
  induction packets generalizing s with
  | nil => exact ⟨s, .nil, rfl, (List.append_nil _).symm⟩
  | cons packet packets ih =>
      rw [List.flatMap_cons] at hforgiving hcovers ⊢
      obtain ⟨hfew, hpatient'⟩ := hpatient
      obtain ⟨hforgiving₁, hforgiving₂⟩ := (Mode.forgiving_append B).mp hforgiving
      obtain ⟨hcovers₁, hcovers₂⟩ := (Mode.covers_append B hforgiving₁.kinds).mp hcovers
      obtain ⟨s₁, hcall, hidle₁, hmode₁, hout₁⟩ :=
        servesPacket_transcribed hb hquiet hneutral hidle packet hforgiving₁ hcovers₁ hfew
      rw [← hmode₁] at hforgiving₂ hcovers₂ hpatient'
      obtain ⟨s', hrun, hmode, hout⟩ := ih hidle₁ hforgiving₂ hcovers₂ hpatient'
      refine ⟨s', .cons hcall hrun, ?_, ?_⟩
      · rw [hmode, hmode₁, Mode.after_append]
      · rw [hout, hout₁, hmode₁, Mode.transcript_append, List.append_assoc]

/-- A Query in the memory area, a Parse that fails and a Query in the socket file, and a Sync. -/
theorem packets_transcribed_parse :
    let B : Backend Unit := .stateless fun m _ =>
      ([.putbytes [m.code]], if m = .parse then some ⟨.other, "failed"⟩ else none)
    let packets : List (Packet .emscripten) := [⟨.cma, [Msg.query.turn], nofun, nofun⟩,
      ⟨.file, [Msg.turn ⟨.parse, [0], by decide⟩, Msg.query.turn], nofun,
        fun _ _ _ => ⟨by decide, fun _ h => absurd rfl h⟩⟩,
      ⟨.cma, [Msg.turn ⟨.sync, [], by decide⟩], nofun, nofun⟩]
    ∃ s', Path (ServesPacket .emscripten B) (State.waiting ()) packets s' ∧
      s'.session.out.filter Event.spoken =
        [.dispatch .query [0], .put .message [81], .put .ready [90, 0, 0, 0, 5, 73],
          .dispatch .parse [0], .put .message [80], .put .error [69, 0, 0, 0, 5, 0],
          .dispatch .sync [], .put .message [83], .put .ready [90, 0, 0, 0, 5, 73]] := by
  intro B packets
  have hcovers : Covers B (State.waiting ()).session.mode (packets.flatMap Packet.turns) :=
    covers_of_reads (fun _ m _ => by cases m <;> rfl) (by decide) _
  have hforgiving : (State.waiting ()).session.mode.Forgiving B (packets.flatMap Packet.turns) :=
    ⟨nofun, by decide, nofun, by decide, nofun, by decide, nofun, by decide, trivial⟩
  have hpatient : Patient B (State.waiting ()).session.mode packets := ⟨by decide, by decide, by decide, trivial⟩
  obtain ⟨s', hrun, -, hout⟩ := packets_transcribed rfl (quietNotify_stateless _) (fun _ => rfl) (idle_waiting B ())
    hforgiving hcovers hpatient
  exact ⟨s', hrun, hout⟩

end PgliteBuild
