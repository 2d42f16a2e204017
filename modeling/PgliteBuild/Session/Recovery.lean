import PgliteBuild.Session.MemoryArea
import PgliteBuild.Session.Transports

/-! # The two ways to recover from an error

Where `sigsetjmp` works, an error of a message jumps into the handler inside `interactive_one`. Where it
does not, the activation ends with the error, and the host calls `clear_error`, `interactive_write(-1)`
and `interactive_one` again. Both clear the error alike, but the resume call goes straight to the end of
the reply: it does not look at the rest of the packet. `recoveries_agree_iff` says that for packets with
one error at most this is the only difference. -/

namespace PgliteBuild

open Effect Framing Jumps

variable {σ : Type} {b b' : Build} {B : Backend σ} {n p : ℕ} {ts : List Turn} {S : Session σ}
  {u : List UInt8} {s : State σ}

/-! ## Recovery by the host -/

/-- The call made in the state `s` and, if it ends with an error, the resume call return in `s'`. -/
def Recovers (b : Build) (B : Backend σ) (s s' : State σ) : Prop :=
  Calls b B s (.ok () s') ∨
    ∃ s₁ s₂, Calls b B s (.error .error s₁) ∧ clearError B s₁ = .ok () s₂ ∧
      Calls b B (interactiveWrite (-1) s₂) (.ok () s')

/-- There is one state to recover to. -/
theorem Recovers.unique {s' s'' : State σ} (h : Recovers b B s s') (h' : Recovers b B s s'') :
    s' = s'' := by
  rcases h with hcalls | ⟨s₁, s₂, hcalls, hclear, hresume⟩
  · rcases h' with hcalls' | ⟨_, _, hcalls', -⟩
    · cases hcalls.unique hcalls'
      rfl
    · cases hcalls.unique hcalls'
  · rcases h' with hcalls' | ⟨s₁', s₂', hcalls', hclear', hresume'⟩
    · cases hcalls.unique hcalls'
    · cases hcalls.unique hcalls'
      cases hclear.symm.trans hclear'
      cases hresume.unique hresume'
      rfl

/-- The host clears the error of a message, and the resume call finishes the reply. -/
theorem resume_answers {l : Locals} (hquiet : QuietNotify B) (hb : b.sigsetjmp = false)
    (hlt : u.length < n) (h : Follows b .cma n u l S s) {m : Msg} {e : ErrorReport}
    (he : s.errordata = some e) (hremote : S.remote = true) (hauth : l.auth = false)
    (hkind : l.extended = m.kind.extended) :
    ∃ s₁ s', clearError B s = .ok () s₁ ∧ Calls b B (interactiveWrite (-1) s₁) (.ok () s') ∧
      Answered b B .cma n u (S.cleared B m e) s' := by
  have hcleared : wp (clearError B) (fun _ s₁ => Follows b .cma n u l (S.cleared B m e) s₁)
      (fun _ _ => False) s := clearError_spec h he hremote hkind fun _ h₁ => h₁
  obtain ⟨_, s₁, hclear, h₁⟩ := hcleared.returns
  obtain ⟨hwire, hrepl, hauth', hport, -, -, hext, -⟩ := h₁.steady
  have hbegin : Follows b .cma n u ⟨false, none, l.extended, true⟩ (S.cleared B m e)
      (interactiveWrite (-1) s₁).begin :=
    ⟨h₁.session, h₁.input.announce (-1), hwire, hrepl, hauth'.trans hauth, hport, rfl, hb.symm, hext, rfl⟩
  obtain ⟨s', hends, hanswered⟩ := ends_wireFlush (B := B) hquiet rfl hlt hbegin
  have hjump : step b B .resumeOnError (interactiveWrite (-1) s₁).begin =
      .ok (some .wireFlush) (interactiveWrite (-1) s₁).begin := by
    have hnot : ¬(interactiveWrite (-1) s₁).begin.isRepl = true := by
      rw [hbegin.steady.2.1]
      simp
    rw [step, block, run_bind_ok (run_get _), if_neg hnot]
    rfl
  have hsize : (interactiveWrite (-1) s₁).comm.cmaRsize < 0 := by
    show (-1 : ℤ) < 0
    decide
  exact ⟨s₁, s', hclear, calls_of_ends (interactiveOne_resume hsize) (.jump hjump hends), hanswered⟩

/-! ## Packets with one error -/

/-- How many messages of a packet raise an error when they are dispatched, up to Terminate. -/
def Mode.raises (B : Backend σ) : Mode σ → List Turn → ℕ
  | _, [] => 0
  | M, t :: ts =>
    if t.kind = .terminate then 0
    else
      (if !M.skips t.kind && (B.answer M.db t.toMsg).error.isSome then 1 else 0) +
        (M.step B t.toMsg).raises B ts

/-- Without its last turn a packet raises no more errors. -/
theorem raises_dropLast_le (B : Backend σ) (M : Mode σ) (ts : List Turn) :
    M.raises B ts.dropLast ≤ M.raises B ts := by
  induction ts generalizing M with
  | nil => exact le_refl _
  | cons t ts ih =>
      cases ts with
      | nil => exact Nat.zero_le _
      | cons t' ts =>
          have hrest := ih (M.step B t.toMsg)
          rw [List.dropLast_cons_cons, Mode.raises, Mode.raises]
          split_ifs <;> omega

/-- A turn that raises no error. -/
theorem raises_dropLast_cons (B : Backend σ) (M : Mode σ) {t : Turn} (ts : List Turn)
    (hk : t.kind ≠ .terminate)
    (hok : (!M.skips t.kind && (B.answer M.db t.toMsg).error.isSome) = false) :
    M.raises B (t :: ts).dropLast = (M.step B t.toMsg).raises B ts.dropLast := by
  cases ts with
  | nil => rfl
  | cons t' ts =>
      rw [List.dropLast_cons_cons, Mode.raises, if_neg hk, hok]
      simp

/-- With and without a handler the packet ends alike, up to `clear_error`. -/
def EndsAlike (B : Backend σ) (S : Session σ) (handled unhandled : Finish σ) : Prop :=
  ∃ S' rest, handled = .flush S' rest ∧ (unhandled = .flush S' rest ∨
    ∃ S₁ m e, unhandled = .raised S₁ m e [] ∧ rest = [] ∧ S' = S₁.cleared B m e ∧ S₁.remote = S.remote)

/-- Without a handler the packet ends at an error, with turns left that are played otherwise. -/
def EndsEarly (S : Session σ) (ts : List Turn) (handled unhandled : Finish σ) : Prop :=
  ∃ S' rest S₁ m e rest₁, handled = .flush S' rest ∧ unhandled = .raised S₁ m e rest₁ ∧
    rest₁ ≠ [] ∧ rest <:+ rest₁.tail ∧ rest₁ <:+ ts.tail ∧ S₁.remote = S.remote

/-- With one more turn in front the packet still ends early. -/
theorem EndsEarly.cons {handled unhandled : Finish σ} (h : EndsEarly S ts handled unhandled) (t : Turn) :
    EndsEarly S (t :: ts) handled unhandled := by
  obtain ⟨S', rest, S₁, m, e, rest₁, hhandled, hunhandled, hne, hrest, hsuffix, hremote⟩ := h
  exact ⟨S', rest, S₁, m, e, rest₁, hhandled, hunhandled, hne, hrest,
    hsuffix.trans (List.tail_suffix ts), hremote⟩

/-- A packet with one error at most ends alike if no turn but the last one raises it. -/
theorem play_recovers (hb : b.sigsetjmp = true) (hb' : b'.sigsetjmp = false) (hn : p + (encodeTurns ts).length = n) 
    (hone : S.mode.raises B ts ≤ 1) (hcanary : S.canaryEx + S.mode.raises B ts ≤ 9) :
    if S.mode.raises B ts.dropLast = 0 then
      EndsAlike B S (S.play b B (Transport.more b .cma n) p ts)
        (S.play b' B (Transport.more b .cma n) p ts)
    else
      EndsEarly S ts (S.play b B (Transport.more b .cma n) p ts)
        (S.play b' B (Transport.more b .cma n) p ts) := by
  induction ts generalizing p S with
  | nil =>
      rw [List.dropLast_nil, Mode.raises, if_pos rfl]
      exact ⟨S, [], rfl, Or.inl rfl⟩
  | cons t ts ih =>
      have hlen : p + t.encode.length + (encodeTurns ts).length = n := by
        rw [encodeTurns_cons, List.length_append] at hn
        omega
      by_cases hk : t.kind = .terminate
      · have hnot : S.skips t.kind = false := by simp [Session.skips, hk, FrontendMsg.endsSkip]
        have hzero : S.mode.raises B (t :: ts).dropLast = 0 := by
          have hle := raises_dropLast_le B S.mode (t :: ts)
          rw [Mode.raises, if_pos hk] at hle
          omega
        rw [if_pos hzero, play_closed b B _ p t ts S hnot hk, play_closed b' B _ p t ts S hnot hk]
        exact ⟨_, ts, rfl, Or.inl rfl⟩
      rw [Mode.raises, if_neg hk] at hone hcanary
      by_cases hs : S.skips t.kind = true
      · have hskips : S.mode.skips t.kind = true := hs
        rw [raises_dropLast_cons B S.mode ts hk (by simp [hskips]), Mode.step_of_skips B S t.toMsg hs,
          play_skipped b B _ p t ts S hs, play_skipped b' B _ p t ts S hs, onward_cma B S hn id,
          onward_cma B S hn id]
        rw [Mode.step_of_skips B S t.toMsg hs] at hone hcanary
        have hrest := ih (S := S) hlen (by omega) (by omega)
        split_ifs at hrest ⊢
        · exact hrest
        · exact hrest.cons t
      have hnot : S.skips t.kind = false := by simpa using hs
      have hskips : S.mode.skips t.kind = false := hnot
      cases herror : (B.answer S.db t.toMsg).error with
      | none =>
          have herror' : (B.answer S.mode.db t.toMsg).error = none := herror
          rw [raises_dropLast_cons B S.mode ts hk (by simp [herror']),
            play_done b B _ p t ts S hnot hk herror, play_done b' B _ p t ts S hnot hk herror,
            onward_cma B _ hn id, onward_cma B _ hn id]
          generalize Transport.more b .cma n (p + t.toMsg.encode.length) = before
          generalize Transport.more b .cma n (p + t.encode.length) = after
          have hcanary' : (S.done B t.toMsg before after).canaryEx = S.canaryEx :=
            between_canaryEx B _ _
          have hremote : (S.done B t.toMsg before after).remote = S.remote := between_remote B _ _
          have hrest := ih (S := S.done B t.toMsg before after) hlen
            (by rw [S.mode_done B t.toMsg hnot herror]; omega)
            (by rw [S.mode_done B t.toMsg hnot herror, hcanary']; omega)
          rw [S.mode_done B t.toMsg hnot herror] at hrest
          rw [EndsAlike, EndsEarly, hremote] at hrest
          split_ifs at hrest ⊢
          · exact hrest
          · exact EndsEarly.cons hrest t
      | some e =>
          have herror' : (B.answer S.mode.db t.toMsg).error = some e := herror
          have hafter : Transport.more b .cma n (p + t.encode.length) = !ts.isEmpty := more_after hn
          rw [play_raised b' B _ p t ts S hb' hnot hk herror]
          by_cases hlast : ts = []
          · -- the error is the last thing that happens
            subst hlast
            have hmore : Transport.more b .cma n (p + t.encode.length) = false := by simp [hafter]
            rw [List.dropLast_singleton, Mode.raises, if_pos rfl,
              play_failed_last b B _ p t [] S hb hnot hk herror hmore]
            exact ⟨_, [], rfl, Or.inr ⟨_, t.toMsg, e, rfl, rfl, rfl, rfl⟩⟩
          have hmore : Transport.more b .cma n (p + t.encode.length) = true := by
            simp [hafter, hlast]
          have hraises : (!S.mode.skips t.kind && (B.answer S.mode.db t.toMsg).error.isSome) = true := by
            rw [hskips, herror']
            rfl
          rw [hraises, if_pos rfl] at hone hcanary
          have hnone : (S.mode.step B t.toMsg).raises B ts = 0 := by omega
          have hsome : S.mode.raises B (t :: ts).dropLast ≠ 0 := by
            obtain ⟨t', ts', rfl⟩ := List.exists_cons_of_ne_nil hlast
            rw [List.dropLast_cons_cons, Mode.raises, if_neg hk, hraises, if_pos rfl]
            omega
          rw [if_neg hsome, play_failed b B _ p t ts S hb hnot hk herror hmore (by omega),
            onward_cma B _ hn (fun h => by rw [h, Bool.true_or])]
          have hmode : ({ (S.handled B t.toMsg).cleared B t.toMsg e with
              canaryEx := S.canaryEx + 1 } : Session σ).mode = S.mode.step B t.toMsg :=
            S.mode_cleared B t.toMsg hnot herror
          have hrest := ih (S := { (S.handled B t.toMsg).cleared B t.toMsg e with
            canaryEx := S.canaryEx + 1 }) hlen (by rw [hmode]; omega) (by
              rw [hmode]
              show S.canaryEx + 1 + _ ≤ 9
              omega)
          have hzero : (S.mode.step B t.toMsg).raises B ts.dropLast = 0 := by
            have hle := raises_dropLast_le B (S.mode.step B t.toMsg) ts
            omega
          rw [hmode, if_pos hzero] at hrest
          obtain ⟨S', rest, hplay, -⟩ := hrest
          exact ⟨S', rest, _, t.toMsg, e, ts, hplay, rfl, hlast, play_rest b B _ _ _ hplay,
            List.suffix_rfl, rfl⟩

/-! ## Both ways -/

/-- Both builds dispatch the same messages, put the same bytes, and leave the same state behind for the
next request. -/
def RecoveriesAgree (b b' : Build) (B : Backend σ) (ts : List Turn) (s : State σ) : Prop :=
  ∃ s₁ s₂ new₁ new₂, Calls b B (s.request .cma (encodeTurns ts)) (.ok () s₁) ∧
    Recovers b' B (s.request .cma (encodeTurns ts)) s₂ ∧
    s₁.session.out = s.session.out ++ new₁ ∧ s₂.session.out = s.session.out ++ new₂ ∧
    dispatches new₁ = dispatches new₂ ∧ replyBytes new₁ = replyBytes new₂ ∧
    s₁.ignoreTillSync = s₂.ignoreTillSync ∧ s₁.sendReadyForQuery = s₂.sendReadyForQuery ∧
    s₁.comm.unread = s₂.comm.unread

/-- How the two calls end: alike, or with more left to read for the build without a handler. -/
theorem calls_both_ways (hb : b.sigsetjmp = true) (hb' : b'.sigsetjmp = false) (hidle : Idle B s)
    (hquiet : QuietNotify B) (hts : ts ≠ []) (hcovers : Covers B s.session.mode ts)
    (hone : s.session.mode.raises B ts ≤ 1) :
    ∃ s₁ s₂, Calls b B (s.request .cma (encodeTurns ts)) (.ok () s₁) ∧
      Recovers b' B (s.request .cma (encodeTurns ts)) s₂ ∧
      (s.session.mode.raises B ts.dropLast = 0 → s₁.session = s₂.session ∧
        s₁.comm.unread = s₂.comm.unread ∧ s.session.out <+: s₁.session.out) ∧
      (s.session.mode.raises B ts.dropLast ≠ 0 → s₁.comm.unread.length < s₂.comm.unread.length) := by
  have hcanary : s.session.opening.canaryEx = 0 := hidle.canary
  have hplay := play_recovers (S := s.session.opening) hb hb' (Nat.zero_add (encodeTurns ts).length)
    hone (by rw [hcanary, Nat.zero_add]; exact hone.trans (by decide))
  have hmore : Transport.more b .cma (encodeTurns ts).length =
      Transport.more b' .cma (encodeTurns ts).length := by
    funext q
    rw [more_cma, more_cma]
  have hcall₁ := call_packet (b := b) hidle hquiet .cma hts hcovers
  have hcall₂ := call_packet (b := b') hidle hquiet .cma hts hcovers
  rw [State.plays] at hcall₁
  rw [State.plays, ← hmore] at hcall₂
  -- the resume call after an error
  have hresume : ∀ S₁ m e rest, CallsAs b' B .cma (encodeTurns ts) s (.raised S₁ m e rest) →
      S₁.remote = true → (encodeTurns rest).length < (encodeTurns ts).length →
      ∃ s₂, Recovers b' B (s.request .cma (encodeTurns ts)) s₂ ∧
        Answered b' B .cma (encodeTurns ts).length (encodeTurns rest) (S₁.cleared B m e) s₂ := by
    rintro S₁ m e rest ⟨s₁, l, hcalls, hfollows, hauth, hkind, he⟩ hremote hlt
    obtain ⟨s₂, s₃, hclear, hcalls', hanswered⟩ :=
      resume_answers hquiet hb' hlt hfollows he hremote hauth hkind
    exact ⟨s₃, Or.inr ⟨s₁, s₂, hcalls, hclear, hcalls'⟩, hanswered⟩
  by_cases hzero : s.session.mode.raises B ts.dropLast = 0
  · rw [if_pos (by exact hzero)] at hplay
    obtain ⟨S', rest, hhandled, hunhandled⟩ := hplay
    rw [hhandled] at hcall₁
    obtain ⟨s₁, hcalls₁, hanswered₁⟩ := hcall₁
    have hrecovers : ∃ s₂, Recovers b' B (s.request .cma (encodeTurns ts)) s₂ ∧
        Answered b' B .cma (encodeTurns ts).length (encodeTurns rest) S' s₂ := by
      rcases hunhandled with hflush | ⟨S₁, m, e, hraised, rfl, rfl, hremote⟩
      · rw [hflush] at hcall₂
        obtain ⟨s₂, hcalls₂, hanswered₂⟩ := hcall₂
        exact ⟨s₂, Or.inl hcalls₂, hanswered₂⟩
      · rw [hraised] at hcall₂
        exact hresume S₁ m e [] hcall₂ hremote (length_encodeTurns_lt (List.nil_suffix) hts)
    obtain ⟨s₂, hrecovers, hanswered₂⟩ := hrecovers
    refine ⟨s₁, s₂, hcalls₁, hrecovers, fun _ => ⟨?_, ?_, ?_⟩, fun h => absurd hzero h⟩
    · rw [hanswered₁.session, hanswered₂.session]
    · rw [hanswered₁.unread rfl, hanswered₂.unread rfl]
    · rw [hanswered₁.session]
      exact (play_out_grows B hhandled).trans (finished_out_grows B S')
  · rw [if_neg (by exact hzero)] at hplay
    obtain ⟨S', rest, S₁, m, e, rest₁, hhandled, hunhandled, hne, hrest, hsuffix, hremote⟩ := hplay
    rw [hhandled] at hcall₁
    obtain ⟨s₁, hcalls₁, hanswered₁⟩ := hcall₁
    rw [hunhandled] at hcall₂
    obtain ⟨s₂, hrecovers, hanswered₂⟩ :=
      hresume S₁ m e rest₁ hcall₂ hremote (length_encodeTurns_lt hsuffix hts)
    refine ⟨s₁, s₂, hcalls₁, hrecovers, fun h => absurd h hzero, fun _ => ?_⟩
    rw [hanswered₁.unread rfl, hanswered₂.unread rfl]
    exact length_encodeTurns_lt hrest hne

/-- Recoveries that agree leave no turn behind a message that raises an error. -/
theorem raises_of_recoveriesAgree (hb : b.sigsetjmp = true) (hb' : b'.sigsetjmp = false)
    (hidle : Idle B s) (hquiet : QuietNotify B) (hts : ts ≠ []) (hcovers : Covers B s.session.mode ts)
    (hone : s.session.mode.raises B ts ≤ 1) (h : RecoveriesAgree b b' B ts s) :
    s.session.mode.raises B ts.dropLast = 0 := by
  obtain ⟨s₁, s₂, hcalls, hrecovers, -, hless⟩ :=
    calls_both_ways hb hb' hidle hquiet hts hcovers hone
  obtain ⟨s₁', s₂', new₁, new₂, hcalls', hrecovers', -, -, -, -, -, -, hunread⟩ := h
  cases hcalls.unique hcalls'
  obtain rfl := hrecovers.unique hrecovers'
  by_contra hzero
  have hlt := hless hzero
  rw [hunread] at hlt
  exact lt_irrefl _ hlt

/-- **The two ways to recover agree exactly when no message but the last one raises an error.** -/
theorem recoveries_agree_iff (hb : b.sigsetjmp = true) (hb' : b'.sigsetjmp = false) (hidle : Idle B s)
    (hquiet : QuietNotify B) (hts : ts ≠ []) (hcovers : Covers B s.session.mode ts)
    (hone : s.session.mode.raises B ts ≤ 1) :
    RecoveriesAgree b b' B ts s ↔ s.session.mode.raises B ts.dropLast = 0 := by
  refine ⟨raises_of_recoveriesAgree hb hb' hidle hquiet hts hcovers hone, fun hzero => ?_⟩
  obtain ⟨s₁, s₂, hcalls, hrecovers, hsame, -⟩ :=
    calls_both_ways hb hb' hidle hquiet hts hcovers hone
  obtain ⟨hsession, hunread, new, hnew⟩ := hsame hzero
  exact ⟨s₁, s₂, new, new, hcalls, hrecovers, hnew.symm, hsession ▸ hnew.symm, rfl, rfl,
    congrArg Session.ignoreTillSync hsession, congrArg Session.sendReadyForQuery hsession, hunread⟩

/-- A Query that fails at the end of its packet. -/
theorem recoveries_agree_iff_query :
    RecoveriesAgree Build.emscripten Build.wasi (Backend.failing []) [Msg.query.turn] (State.waiting ()) :=
  (recoveries_agree_iff rfl rfl (idle_waiting _ ()) (quietNotify_stateless _) (by simp)
    (batch_failing [] 0).covers (by decide)).mpr rfl

/-- A Sync message. -/
def Msg.sync : Msg := ⟨.sync, [], by decide⟩

/-- The Sync behind a Query that fails is not read by the resume call. -/
theorem not_recoveries_agree_sync :
    ¬RecoveriesAgree Build.emscripten Build.wasi (Backend.failing [])
      [Msg.query.turn, Msg.sync.turn] (State.waiting ()) := by
  intro h
  have hcovers : Covers (Backend.failing []) (State.waiting ()).session.mode
      [Msg.query.turn, Msg.sync.turn] :=
    covers_of_reads (fun _ m _ => by cases m <;> rfl) (by simp [Msg.turn]) _
  have hzero := raises_of_recoveriesAgree rfl rfl (idle_waiting _ ()) (quietNotify_stateless _)
    (by simp) hcovers (by decide) h
  revert hzero
  decide

end PgliteBuild
