import PgliteBuild.Session.Call
import PgliteBuild.Session.MemoryArea
import PgliteBuild.Session.Output

/-! # The memory area and the socket file

The same packet can reach the backend in the memory area or in the socket file, and its messages should
be dispatched and answered alike. The loop goes on while data is buffered, and the receive buffer of the
socket file can be empty in the middle of a packet: a message that ends where a refill is due ends the
loop, and what follows it is not dispatched. `transports_agree_iff` says that for packets without errors
this is the only difference. -/

namespace PgliteBuild

open Framing

variable {σ : Type} {b : Build} {B : Backend σ} {n p : ℕ} {t : Turn} {ts : List Turn}
  {S : Session σ}

/-! ## What is compared -/

/-- The messages dispatched in a history. -/
def dispatches (es : List Event) : List (FrontendMsg × List UInt8) :=
  es.filterMap fun
    | .dispatch kind body => some (kind, body)
    | _ => none

/-- The bytes put in a history. -/
def replyBytes (es : List Event) : List UInt8 :=
  es.flatMap fun
    | .put _ bytes => bytes
    | _ => []

@[simp] theorem dispatches_append (es es' : List Event) :
    dispatches (es ++ es') = dispatches es ++ dispatches es' := List.filterMap_append

@[simp] theorem dispatches_dispatch (kind : FrontendMsg) (body : List UInt8) (es : List Event) :
    dispatches (.dispatch kind body :: es) = (kind, body) :: dispatches es := rfl

/-- Bytes that are put dispatch nothing. -/
theorem dispatches_putBy {sources : List Source} {es : List Event} (h : PutBy sources es) :
    dispatches es = [] := by
  refine List.filterMap_eq_nil_iff.mpr fun e he => ?_
  obtain ⟨source, -, bytes, rfl⟩ := h e he
  rfl

/-- The packet is dispatched and answered alike over both transports. -/
def TransportsAgree (b : Build) (B : Backend σ) (ts : List Turn) (s : State σ) : Prop :=
  ∃ s₁ s₂ new₁ new₂, Calls b B (s.request .cma (encodeTurns ts)) (.ok () s₁) ∧
    Calls b B (s.request .file (encodeTurns ts)) (.ok () s₂) ∧
    s₁.session.out = s.session.out ++ new₁ ∧ s₂.session.out = s.session.out ++ new₂ ∧
    dispatches new₁ = dispatches new₂ ∧ replyBytes new₁ = replyBytes new₂

/-- No message that is dispatched raises an error. -/
def ErrorFree (B : Backend σ) : Mode σ → List Turn → Prop
  | _, [] => True
  | M, t :: ts =>
    (M.skips t.kind = false → (B.answer M.db t.toMsg).error = none) ∧
      (t.kind ≠ .terminate → ErrorFree B (M.step B t.toMsg) ts)

/-- From position `p` on, no turn but the last one ends at a multiple of the receive buffer, neither
its message nor the COPY messages that its handler reads. Nothing is asked of what follows Terminate. -/
def Unbroken (b : Build) : ℕ → List Turn → Prop
  | _, [] => True
  | p, t :: ts => t.kind ≠ .terminate → ts ≠ [] →
    (¬b.recvBufferSize ∣ p + t.toMsg.encode.length ∧ ¬b.recvBufferSize ∣ p + t.encode.length) ∧
      Unbroken b (p + t.encode.length) ts

/-- The packet is in skip mode from its start to its end. -/
def Session.Sleeps (S : Session σ) (ts : List Turn) : Prop :=
  S.ignoreTillSync = true ∧ ∀ t ∈ ts, t.kind.endsSkip = false

/-! ## Going on -/

/-- In the socket file the loop goes on behind a turn unless a refill is due. -/
theorem more_file (hn : p + (encodeTurns (t :: ts)).length = n) (hts : ts ≠ []) :
    (Transport.more b .file n (p + t.toMsg.encode.length) &&
        Transport.more b .file n (p + t.encode.length)) = true ↔
      ¬b.recvBufferSize ∣ p + t.toMsg.encode.length ∧ ¬b.recvBufferSize ∣ p + t.encode.length := by
  have hpos : 0 < (encodeTurns ts).length := by
    rw [List.length_pos_iff, ne_eq, encodeTurns_eq_nil]
    exact hts
  have hle : t.toMsg.encode.length ≤ t.encode.length := by
    rw [Turn.encode, List.length_append]
    omega
  rw [encodeTurns_cons, List.length_append] at hn
  have hbefore : p + t.toMsg.encode.length ≠ n := by omega
  have hafter : p + t.encode.length ≠ n := by omega
  simp only [Transport.more, Transport.Cut, hbefore, hafter]
  simp

/-- At the end of the packet no loop goes on. -/
theorem more_last (tr : Transport) (hn : p + (encodeTurns [t]).length = n) :
    (Transport.more b tr n (p + t.toMsg.encode.length) &&
      Transport.more b tr n (p + t.encode.length)) = false := by
  rw [encodeTurns_cons, encodeTurns_nil, List.append_nil] at hn
  simp [Transport.more, Transport.Cut, hn]

/-- In the memory area the loop goes on up to the end. -/
theorem more_cma_of_ne_nil (hn : p + (encodeTurns (t :: ts)).length = n) (hts : ts ≠ []) :
    (Transport.more b .cma n (p + t.toMsg.encode.length) &&
      Transport.more b .cma n (p + t.encode.length)) = true := by
  have hpos : 0 < (encodeTurns ts).length := by
    rw [List.length_pos_iff, ne_eq, encodeTurns_eq_nil]
    exact hts
  have hle : t.toMsg.encode.length ≤ t.encode.length := by
    rw [Turn.encode, List.length_append]
    omega
  rw [encodeTurns_cons, List.length_append] at hn
  rw [more_cma, more_cma, Bool.and_eq_true, decide_eq_true_eq, decide_eq_true_eq]
  omega

/-- Without a ReadyForQuery owed, a turn that succeeds only depends on whether the loop goes on. -/
theorem done_eq (hready : S.sendReadyForQuery = false) (m : Msg) (before after : Bool) :
    S.done B m before after = Session.between B { S.handled B m with
      sendReadyForQuery := m.kind.answersReady } (before && after) := by
  rw [Session.done, hready, FrontendMsg.owesReady_false]

/-- A turn that succeeds owes no ReadyForQuery if the loop goes on. -/
theorem done_sendReadyForQuery (m : Msg) {before after : Bool} (hgo : (before && after) = true) :
    (S.done B m before after).sendReadyForQuery = false := by
  rw [Session.done, hgo, Session.between, Bool.true_and]
  split_ifs with howed
  · rfl
  · simpa using howed

/-- Behind the last turn the packet is over. -/
theorem onward_last (more : ℕ → Bool) (p : ℕ) (t : Turn) (pipelining : Bool) (S : Session σ) :
    S.onward b B more p t [] pipelining = .flush S [] := by
  rw [Session.onward]
  split_ifs <;> rfl

/-! ## Packets that the socket file does not break -/

/-- In an unbroken packet the loop over the socket file goes on as over the memory area. -/
theorem onward_file (hn : p + (encodeTurns (t :: ts)).length = n) (hk : t.kind ≠ .terminate)
    (hunbroken : Unbroken b p (t :: ts)) :
    S.onward b B (Transport.more b .file n) p t ts (Transport.more b .file n (p + t.toMsg.encode.length)) =
      S.play b B (Transport.more b .file n) (p + t.encode.length) ts := by
  by_cases hts : ts = []
  · subst hts
    exact onward_last _ p t _ S
  · rw [Session.onward, if_pos ((more_file hn hts).mpr (hunbroken hk hts).1)]

/-- An unbroken packet is played alike over both transports. -/
theorem play_unbroken (hn : p + (encodeTurns ts).length = n) (hready : S.sendReadyForQuery = false)
    (herror : ErrorFree B S.mode ts) (hunbroken : Unbroken b p ts) :
    S.play b B (Transport.more b .file n) p ts =
      S.play b B (Transport.more b .cma n) p ts := by
  induction ts generalizing p S with
  | nil => rfl
  | cons t ts ih =>
      obtain ⟨hok, hrest⟩ := herror
      by_cases hts : ts = []
      · -- the last turn
        subst hts
        by_cases hs : S.skips t.kind = true
        · rw [play_skipped b B _ p t [] S hs, play_skipped b B _ p t [] S hs, onward_last, onward_last]
        have hnot : S.skips t.kind = false := by simpa using hs
        by_cases hk : t.kind = .terminate
        · rw [play_closed b B _ p t [] S hnot hk, play_closed b B _ p t [] S hnot hk]
        rw [play_done b B _ p t [] S hnot hk (hok hnot), play_done b B _ p t [] S hnot hk (hok hnot),
          onward_last, onward_last, done_eq hready, done_eq hready, more_last .file hn,
          more_last .cma hn]
      · have hlen : p + t.encode.length + (encodeTurns ts).length = n := by
          rw [encodeTurns_cons, List.length_append] at hn
          omega
        by_cases hk : t.kind = .terminate
        · have hnot : S.skips t.kind = false := by simp [Session.skips, hk, FrontendMsg.endsSkip]
          rw [play_closed b B _ p t ts S hnot hk, play_closed b B _ p t ts S hnot hk]
        have hafter := (hunbroken hk hts).2
        by_cases hs : S.skips t.kind = true
        · have hfree := hrest hk
          rw [Mode.step_of_skips B S t.toMsg hs] at hfree
          rw [play_skipped b B _ p t ts S hs, play_skipped b B _ p t ts S hs, onward_cma B S hn id,
            onward_file hn hk hunbroken]
          exact ih hlen hready hfree hafter
        have hnot : S.skips t.kind = false := by simpa using hs
        have hfile := (more_file hn hts).mpr (hunbroken hk hts).1
        have hcma := more_cma_of_ne_nil (b := b) hn hts
        have hsame : ∀ {before after before' after' : Bool}, (before && after) = true →
            (before' && after') = true →
            S.done B t.toMsg before after = S.done B t.toMsg before' after' := by
          intro before after before' after' hgo hgo'
          rw [done_eq hready, done_eq hready, hgo, hgo']
        rw [play_done b B _ p t ts S hnot hk (hok hnot), play_done b B _ p t ts S hnot hk (hok hnot),
          onward_cma B _ hn id, onward_file hn hk hunbroken, hsame hfile hcma]
        refine ih hlen (done_sendReadyForQuery _ hcma) ?_ hafter
        rw [S.mode_done B t.toMsg hnot (hok hnot)]
        exact hrest hk

/-! ## Packets that the socket file breaks -/

/-- The number of messages dispatched so far. -/
def Session.dispatched (S : Session σ) : ℕ := (dispatches S.out).length

/-- The end of a round dispatches nothing. -/
theorem dispatched_between (B : Backend σ) (S : Session σ) (more : Bool) :
    (S.between B more).dispatched = S.dispatched := by
  obtain ⟨new, hout, hput, -⟩ := between_out B S more
  rw [Session.dispatched, hout, dispatches_append, dispatches_putBy hput, List.append_nil]
  rfl

/-- A message that is handled is dispatched once. -/
theorem dispatched_handled (B : Backend σ) (S : Session σ) (m : Msg) :
    (S.handled B m).dispatched = S.dispatched + 1 := by
  rw [Session.dispatched, Session.handled, dispatches_append, dispatches_dispatch,
    dispatches_putBy (putBy_output B S.db m), List.length_append]
  rfl

/-- A turn that succeeds is dispatched once. -/
theorem dispatched_done (B : Backend σ) (S : Session σ) (m : Msg) (before after : Bool) :
    (S.done B m before after).dispatched = S.dispatched + 1 :=
  (dispatched_between B _ _).trans (dispatched_handled B S m)

/-- A packet that is asleep is played without a trace. -/
theorem play_sleeps (B : Backend σ) (more : ℕ → Bool) (hsleeps : S.Sleeps ts) :
    ∃ rest, S.play b B more p ts = .flush S rest := by
  induction ts generalizing p with
  | nil => exact ⟨[], rfl⟩
  | cons t ts ih =>
      obtain ⟨hignore, hends⟩ := hsleeps
      have hs : S.skips t.kind = true := by simp [Session.skips, hignore, hends t]
      rw [play_skipped b B _ p t ts S hs, Session.onward]
      split_ifs
      · exact ih ⟨hignore, fun t ht => hends t (by simp [ht])⟩
      · exact ⟨ts, rfl⟩

/-- A skipped turn changes nothing about the sleep. -/
theorem sleeps_cons (hs : S.skips t.kind = true) : S.Sleeps (t :: ts) ↔ S.Sleeps ts := by
  have hends : t.kind.endsSkip = false := by simpa using (Bool.and_eq_true_iff.mp hs).2
  simp [Session.Sleeps, hends]

/-- After a turn without error the session is awake. -/
theorem not_sleeps_done (hnot : S.skips t.kind = false) (before after : Bool) (ts : List Turn) :
    ¬(S.done B t.toMsg before after).Sleeps ts := by
  rintro ⟨hignore, -⟩
  have hleft : (S.ignoreTillSync && !t.kind.endsSkip) = false := hnot
  simp [Session.done, Session.handled, hleft] at hignore

/-- In the memory area something of the packet is dispatched, unless the packet is asleep. -/
theorem play_cma_dispatches (hn : p + (encodeTurns ts).length = n) (herror : ErrorFree B S.mode ts) :
    ∃ S' rest, S.play b B (Transport.more b .cma n) p ts = .flush S' rest ∧
      S.dispatched ≤ S'.dispatched ∧ (ts ≠ [] → ¬S.Sleeps ts → S.dispatched < S'.dispatched) := by
  induction ts generalizing p S with
  | nil => exact ⟨S, [], rfl, le_refl _, fun h => absurd rfl h⟩
  | cons t ts ih =>
      obtain ⟨hok, hrest⟩ := herror
      have hlen : p + t.encode.length + (encodeTurns ts).length = n := by
        rw [encodeTurns_cons, List.length_append] at hn
        omega
      by_cases hs : S.skips t.kind = true
      · have hk : t.kind ≠ .terminate := by
          intro hk
          simp [Session.skips, hk, FrontendMsg.endsSkip] at hs
        have hfree := hrest hk
        rw [Mode.step_of_skips B S t.toMsg hs] at hfree
        obtain ⟨S', rest, hplay, hle, hlt⟩ := ih hlen hfree
        refine ⟨S', rest, ?_, hle, fun _ hawake => ?_⟩
        · rw [play_skipped b B _ p t ts S hs, onward_cma B S hn id]
          exact hplay
        · have hawake' : ¬S.Sleeps ts := fun hsleeps => hawake ((sleeps_cons hs).mpr hsleeps)
          refine hlt ?_ hawake'
          rintro rfl
          exact hawake' ⟨(Bool.and_eq_true_iff.mp hs).1, by simp⟩
      have hnot : S.skips t.kind = false := by simpa using hs
      by_cases hk : t.kind = .terminate
      · have hclosed : (S.closed B t.toMsg).dispatched = S.dispatched + 1 :=
          dispatched_handled B S t.toMsg
        refine ⟨_, ts, play_closed b B _ p t ts S hnot hk, ?_, fun _ _ => ?_⟩ <;> omega
      · have hfree := hrest hk
        rw [← S.mode_done B t.toMsg hnot (hok hnot)
          (Transport.more b .cma n (p + t.toMsg.encode.length))
          (Transport.more b .cma n (p + t.encode.length))] at hfree
        obtain ⟨S', rest, hplay, hle, -⟩ := ih hlen hfree
        rw [dispatched_done] at hle
        refine ⟨S', rest, ?_, by omega, fun _ _ => by omega⟩
        rw [play_done b B _ p t ts S hnot hk (hok hnot), onward_cma B _ hn id]
        exact hplay

/-- A broken packet is played to its end in the memory area only: unless it is asleep, the socket file
dispatches less. -/
theorem play_broken (hn : p + (encodeTurns ts).length = n) (hready : S.sendReadyForQuery = false)
    (herror : ErrorFree B S.mode ts) (hbroken : ¬Unbroken b p ts) :
    ∃ S₁ rest₁ S₂ rest₂, S.play b B (Transport.more b .cma n) p ts = .flush S₁ rest₁ ∧
      S.play b B (Transport.more b .file n) p ts = .flush S₂ rest₂ ∧
      (S.Sleeps ts → S₁ = S ∧ S₂ = S) ∧ (¬S.Sleeps ts → S₂.dispatched < S₁.dispatched) := by
  by_cases hsleeps : S.Sleeps ts
  · obtain ⟨rest₁, hcma⟩ := play_sleeps (p := p) B (Transport.more b .cma n) hsleeps
    obtain ⟨rest₂, hfile⟩ := play_sleeps (p := p) B (Transport.more b .file n)
      hsleeps
    exact ⟨S, rest₁, S, rest₂, hcma, hfile, fun _ => ⟨rfl, rfl⟩, fun h => absurd hsleeps h⟩
  induction ts generalizing p S with
  | nil => exact absurd trivial hbroken
  | cons t ts ih =>
      obtain ⟨hok, hrest⟩ := herror
      rw [Unbroken, Classical.not_imp, Classical.not_imp] at hbroken
      obtain ⟨hk, hts, hbreak⟩ := hbroken
      have hlen : p + t.encode.length + (encodeTurns ts).length = n := by
        rw [encodeTurns_cons, List.length_append] at hn
        omega
      have hcma := more_cma_of_ne_nil (b := b) hn hts
      have hfree := hrest hk
      by_cases hs : S.skips t.kind = true
      · rw [Mode.step_of_skips B S t.toMsg hs] at hfree
        have hawake : ¬S.Sleeps ts := fun h => hsleeps ((sleeps_cons hs).mpr h)
        rw [play_skipped b B _ p t ts S hs, play_skipped b B _ p t ts S hs, onward_cma B S hn id]
        by_cases hgo : ¬b.recvBufferSize ∣ p + t.toMsg.encode.length ∧
            ¬b.recvBufferSize ∣ p + t.encode.length
        · obtain ⟨S₁, rest₁, S₂, rest₂, hplay₁, hplay₂, -, hless⟩ :=
            ih hlen hready hfree (fun h => hbreak ⟨hgo, h⟩) hawake
          rw [Session.onward, if_pos ((more_file hn hts).mpr hgo)]
          exact ⟨S₁, rest₁, S₂, rest₂, hplay₁, hplay₂, fun h => absurd h hsleeps, fun _ => hless hawake⟩
        · -- the loop over the socket file ends here
          obtain ⟨S₁, rest₁, hplay₁, -, hless⟩ := play_cma_dispatches hlen hfree
          rw [Session.onward, if_neg (mt (more_file hn hts).mp hgo)]
          exact ⟨S₁, rest₁, S, ts, hplay₁, rfl, fun h => absurd h hsleeps, fun _ => hless hts hawake⟩
      have hnot : S.skips t.kind = false := by simpa using hs
      rw [play_done b B _ p t ts S hnot hk (hok hnot), play_done b B _ p t ts S hnot hk (hok hnot),
        onward_cma B _ hn id]
      rw [← S.mode_done B t.toMsg hnot (hok hnot)
        (Transport.more b .cma n (p + t.toMsg.encode.length))
        (Transport.more b .cma n (p + t.encode.length))] at hfree
      have hawake := not_sleeps_done (B := B) hnot (Transport.more b .cma n (p + t.toMsg.encode.length))
        (Transport.more b .cma n (p + t.encode.length)) ts
      by_cases hgo : ¬b.recvBufferSize ∣ p + t.toMsg.encode.length ∧
          ¬b.recvBufferSize ∣ p + t.encode.length
      · have hfile := (more_file hn hts).mpr hgo
        have hsame : S.done B t.toMsg (Transport.more b .file n (p + t.toMsg.encode.length))
            (Transport.more b .file n (p + t.encode.length)) =
            S.done B t.toMsg (Transport.more b .cma n (p + t.toMsg.encode.length))
              (Transport.more b .cma n (p + t.encode.length)) := by
          rw [done_eq hready, done_eq hready, hfile, hcma]
        obtain ⟨S₁, rest₁, S₂, rest₂, hplay₁, hplay₂, -, hless⟩ :=
          ih hlen (done_sendReadyForQuery _ hcma) hfree (fun h => hbreak ⟨hgo, h⟩) hawake
        rw [Session.onward, if_pos hfile, hsame]
        exact ⟨S₁, rest₁, S₂, rest₂, hplay₁, hplay₂, fun h => absurd h hsleeps, fun _ => hless hawake⟩
      · obtain ⟨S₁, rest₁, hplay₁, -, hless⟩ := play_cma_dispatches hlen hfree
        have hmore := hless hts hawake
        rw [dispatched_done] at hmore
        rw [Session.onward, if_neg (mt (more_file hn hts).mp hgo)]
        refine ⟨S₁, rest₁, _, ts, hplay₁, rfl, fun h => absurd h hsleeps, fun _ => ?_⟩
        rw [dispatched_done]
        exact hmore

/-! ## Calls over both transports -/

/-- The end of a packet dispatches nothing. -/
theorem dispatched_finished (B : Backend σ) (S : Session σ) :
    (S.finished B).dispatched = S.dispatched := by
  obtain ⟨notes, ready, hout, hnotes, hready, -⟩ := finished_out B S
  rw [Session.dispatched, hout, dispatches_append, dispatches_putBy (hnotes.append hready),
    List.append_nil]
  rfl

/-- What two calls with the same packet add to the history: the same, or the socket file dispatches
less. -/
theorem calls_over_both {s : State σ} (hidle : Idle B s) (hquiet : QuietNotify B) (hts : ts ≠ [])
    (hcovers : Covers B s.session.mode ts) (herror : ErrorFree B s.session.mode ts) :
    ∃ s₁ s₂ new₁ new₂, Calls b B (s.request .cma (encodeTurns ts)) (.ok () s₁) ∧
      Calls b B (s.request .file (encodeTurns ts)) (.ok () s₂) ∧
      s₁.session.out = s.session.out ++ new₁ ∧ s₂.session.out = s.session.out ++ new₂ ∧
      (s.session.Sleeps ts ∨ Unbroken b 0 ts → new₁ = new₂) ∧
      (¬(s.session.Sleeps ts ∨ Unbroken b 0 ts) →
        (dispatches new₂).length < (dispatches new₁).length) := by
  have hn : 0 + (encodeTurns ts).length = (encodeTurns ts).length := Nat.zero_add _
  have hplays : ∃ S₁ rest₁ S₂ rest₂, s.plays b B .cma ts = .flush S₁ rest₁ ∧
      s.plays b B .file ts = .flush S₂ rest₂ ∧
      (s.session.Sleeps ts ∨ Unbroken b 0 ts → S₁ = S₂) ∧
      (¬(s.session.Sleeps ts ∨ Unbroken b 0 ts) → S₂.dispatched < S₁.dispatched) := by
    by_cases hunbroken : Unbroken b 0 ts
    · obtain ⟨S, rest, hplay, -⟩ := play_cma_dispatches (b := b)
        (S := s.session.opening) hn herror
      have hsame := play_unbroken (b := b) (S := s.session.opening) hn rfl herror
        hunbroken
      exact ⟨S, rest, S, rest, hplay, hsame.trans hplay, fun _ => rfl,
        fun h => absurd (Or.inr hunbroken) h⟩
    · obtain ⟨S₁, rest₁, S₂, rest₂, hplay₁, hplay₂, hsleeps, hawake⟩ :=
        play_broken (b := b) (S := s.session.opening) hn rfl herror hunbroken
      refine ⟨S₁, rest₁, S₂, rest₂, hplay₁, hplay₂, fun h => ?_, fun h => hawake fun hs => h (Or.inl hs)⟩
      obtain ⟨rfl, rfl⟩ := hsleeps (h.resolve_right hunbroken)
      rfl
  obtain ⟨S₁, rest₁, S₂, rest₂, hplay₁, hplay₂, hsame, hless⟩ := hplays
  have hcall₁ := call_packet (b := b) hidle hquiet .cma hts hcovers
  have hcall₂ := call_packet (b := b) hidle hquiet .file hts hcovers
  rw [hplay₁] at hcall₁
  rw [hplay₂] at hcall₂
  obtain ⟨s₁, hcalls₁, hanswered₁⟩ := hcall₁
  obtain ⟨s₂, hcalls₂, hanswered₂⟩ := hcall₂
  obtain ⟨new₁, hnew₁⟩ := (play_out_grows B hplay₁).trans (finished_out_grows B S₁)
  obtain ⟨new₂, hnew₂⟩ := (play_out_grows B hplay₂).trans (finished_out_grows B S₂)
  refine ⟨s₁, s₂, new₁, new₂, hcalls₁, hcalls₂, ?_, ?_, fun h => ?_, fun h => ?_⟩
  · rw [hanswered₁.session]
    exact hnew₁.symm
  · rw [hanswered₂.session]
    exact hnew₂.symm
  · obtain rfl := hsame h
    exact List.append_cancel_left (hnew₁.trans hnew₂.symm)
  · have hlt := hless h
    rw [← dispatched_finished B S₁, ← dispatched_finished B S₂, Session.dispatched, Session.dispatched,
      ← hnew₁, ← hnew₂, dispatches_append, dispatches_append, List.length_append,
      List.length_append] at hlt
    omega

/-- A packet that is answered alike over both transports is asleep or unbroken. -/
theorem unbroken_of_agree {s : State σ} (hidle : Idle B s) (hquiet : QuietNotify B) (hts : ts ≠ [])
    (hcovers : Covers B s.session.mode ts) (herror : ErrorFree B s.session.mode ts)
    (h : TransportsAgree b B ts s) : s.session.Sleeps ts ∨ Unbroken b 0 ts := by
  obtain ⟨s₁, s₂, new₁, new₂, hcalls₁, hcalls₂, hout₁, hout₂, -, hless⟩ :=
    calls_over_both (b := b) hidle hquiet hts hcovers herror
  obtain ⟨s₁', s₂', new₁', new₂', hcalls₁', hcalls₂', hout₁', hout₂', hdispatches, -⟩ := h
  cases hcalls₁.unique hcalls₁'
  cases hcalls₂.unique hcalls₂'
  obtain rfl : new₁ = new₁' := List.append_cancel_left (hout₁.symm.trans hout₁')
  obtain rfl : new₂ = new₂' := List.append_cancel_left (hout₂.symm.trans hout₂')
  by_contra hnot
  have hlt := hless hnot
  rw [hdispatches] at hlt
  exact lt_irrefl _ hlt

/-- **Packets without errors are dispatched and answered alike over both transports exactly when they
are asleep, or no turn in their midst ends at a multiple of the receive buffer.** -/
theorem transports_agree_iff {s : State σ} (hidle : Idle B s) (hquiet : QuietNotify B) (hts : ts ≠ [])
    (hcovers : Covers B s.session.mode ts) (herror : ErrorFree B s.session.mode ts) :
    TransportsAgree b B ts s ↔ s.session.Sleeps ts ∨ Unbroken b 0 ts := by
  refine ⟨unbroken_of_agree hidle hquiet hts hcovers herror, fun h => ?_⟩
  obtain ⟨s₁, s₂, new₁, new₂, hcalls₁, hcalls₂, hout₁, hout₂, hsame, -⟩ :=
    calls_over_both (b := b) hidle hquiet hts hcovers herror
  obtain rfl := hsame h
  exact ⟨s₁, s₂, new₁, new₁, hcalls₁, hcalls₂, hout₁, hout₂, rfl, rfl⟩

/-- A backend whose handlers put `row` and succeed. -/
def Backend.answering (row : List UInt8) : Backend Unit := .stateless fun _ _ => ([.putbytes row], none)

/-- Two messages for a backend that answers everything. -/
theorem errorFree_answering (row : List UInt8) {m m' : Msg} (hm : m.kind = .query)
    (hm' : m'.kind = .query) :
    ErrorFree (Backend.answering row) ⟨(), false⟩ [m.turn, m'.turn] := by
  have hok : ∀ (d : Unit) (m : Msg), m.kind = .query →
      ((Backend.answering row).answer d m).error = none := by
    intro d m hm
    simp [Backend.answer, hm, Backend.answering, Backend.stateless]
  exact ⟨fun _ => hok _ m hm, fun _ => ⟨fun _ => hok _ m' hm', fun _ => trivial⟩⟩

/-- A Query message that is longer than the receive buffer. -/
def Msg.long : Msg := ⟨.query, List.replicate 9000 0, by rw [List.length_replicate]; decide⟩

/-- A message that needs a refill, and one behind it. -/
theorem transports_agree_iff_long :
    TransportsAgree Build.emscripten (Backend.answering [68]) [Msg.long.turn, Msg.query.turn]
      (State.waiting ()) := by
  have hbody : Msg.long.turn.body.length = 9000 := List.length_replicate
  have hmessage : ¬8192 ∣ 0 + Msg.long.turn.toMsg.encode.length := by
    rw [Msg.length_encode, hbody]
    decide
  have hturn : ¬8192 ∣ 0 + Msg.long.turn.encode.length := by
    rw [Turn.length_encode, hbody]
    decide
  have hunbroken : Unbroken Build.emscripten 0 [Msg.long.turn, Msg.query.turn] :=
    fun _ _ => ⟨⟨hmessage, hturn⟩, fun _ h => absurd rfl h⟩
  exact (transports_agree_iff (idle_waiting _ ()) (quietNotify_stateless _) (by simp)
    (covers_of_reads (fun _ m _ => by cases m <;> rfl) (by simp [Msg.turn]) _)
    (errorFree_answering [68] rfl rfl)).mpr (.inr hunbroken)

/-- A Query message that fills the receive buffer. -/
def Msg.full : Msg := ⟨.query, List.replicate 8187 0, by rw [List.length_replicate]; decide⟩

/-- Behind a message that fills the receive buffer the socket file stops. -/
theorem not_transports_agree_full :
    ¬TransportsAgree Build.emscripten (Backend.answering [68]) [Msg.full.turn, Msg.query.turn]
      (State.waiting ()) := by
  intro h
  rcases unbroken_of_agree (idle_waiting _ ()) (quietNotify_stateless _) (by simp)
    (covers_of_reads (fun _ m _ => by cases m <;> rfl) (by simp [Msg.turn]) _)
    (errorFree_answering [68] rfl rfl) h with hsleeps | hunbroken
  · cases hsleeps.1
  · have hkind : Msg.full.turn.kind ≠ .terminate := fun h => FrontendMsg.noConfusion h
    have hfree := (hunbroken hkind (by simp)).1.1
    have hbody : Msg.full.turn.body.length = 8187 := List.length_replicate
    have hlen : 0 + Msg.full.turn.toMsg.encode.length = 8192 * 1 := by
      rw [Msg.length_encode, hbody]
    exact hfree ⟨1, hlen⟩

end PgliteBuild
