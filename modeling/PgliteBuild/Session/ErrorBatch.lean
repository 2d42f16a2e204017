import PgliteBuild.Foundation.Runs
import PgliteBuild.Session.Call
import PgliteBuild.Session.MemoryArea
import PgliteBuild.Session.Output

/-! # Batches with errors

What clients expect of a batch: the messages dispatched are those outside skip mode, which an error of
an extended-query message starts and the next Sync ends, over the packets of a whole run. The handler
gives up when it has been through ten errors of one packet with data left, since nothing resets
`canary_ex` before the call returns. `completes_iff` says that this is all that goes wrong. -/

namespace PgliteBuild

open Framing Runs

variable {σ : Type} {b : Build} {B : Backend σ}

/-! ## Dispatched messages and their errors -/

/-- A message that was dispatched, and whether it raised an error. -/
structure Mark where
  kind : FrontendMsg
  body : List UInt8
  failed : Bool
  deriving DecidableEq, Repr

/-- Whether an error is reported before the next message is dispatched. -/
def failsNext : List Event → Bool
  | [] => false
  | .dispatch _ _ :: _ => false
  | .put .error _ :: _ => true
  | _ :: es => failsNext es

/-- The messages dispatched in a history. -/
def marks : List Event → List Mark
  | [] => []
  | .dispatch kind body :: es => ⟨kind, body, failsNext es⟩ :: marks es
  | _ :: es => marks es

/-- `OutsideSkip skip ts ms skip'`: of the turns `ts`, starting in skip mode or not, exactly those
outside skip mode are dispatched as `ms` says, and skip mode is `skip'` at the end. -/
inductive OutsideSkip : Bool → List Turn → List Mark → Bool → Prop
  | nil {skip : Bool} : OutsideSkip skip [] [] skip
  | skipped {t : Turn} {ts : List Turn} {ms : List Mark} {skip' : Bool} :
      t.kind ≠ .sync → OutsideSkip true ts ms skip' → OutsideSkip true (t :: ts) ms skip'
  | dispatched {skip : Bool} {t : Turn} {ts : List Turn} {ms : List Mark} {skip' : Bool}
      (failed : Bool) : (skip = true → t.kind = .sync) →
      OutsideSkip (failed && t.kind.extended) ts ms skip' →
      OutsideSkip skip (t :: ts) (⟨t.kind, t.body, failed⟩ :: ms) skip'

/-- Marks outside of skip mode join over two stretches. -/
theorem OutsideSkip.append {skip skip' skip'' : Bool} {ts ts' : List Turn} {ms ms' : List Mark}
    (h : OutsideSkip skip ts ms skip') (h' : OutsideSkip skip' ts' ms' skip'') :
    OutsideSkip skip (ts ++ ts') (ms ++ ms') skip'' := by
  induction h with
  | nil => exact h'
  | skipped hkind _ ih => exact .skipped hkind (ih h')
  | dispatched failed hkind _ ih => exact .dispatched failed hkind (ih h')

/-- Before its first dispatch a history reports no error, and dispatches nothing. -/
theorem marks_append (es : List Event) {es' : List Event} (h : failsNext es' = false) :
    marks (es ++ es') = marks es ++ marks es' ∧ failsNext (es ++ es') = failsNext es := by
  induction es with
  | nil => exact ⟨rfl, h⟩
  | cons e es ih =>
      obtain ⟨hmarks, hfails⟩ := ih
      cases e with
      | dispatch kind body => simp [marks, failsNext, hmarks, hfails]
      | put source bytes => cases source <;> simp [marks, failsNext, hmarks, hfails]
      | sigsetjmp | raising _ | wireFlush | rename | prompt =>
          simp [marks, failsNext, hmarks, hfails]

/-- Bytes that are put on other behalf than that of an error leave no mark. -/
theorem marks_putBy {sources : List Source} {es : List Event} (h : PutBy sources es)
    (hsources : .error ∉ sources) : marks es = [] ∧ failsNext es = false := by
  induction es with
  | nil => exact ⟨rfl, rfl⟩
  | cons e es ih =>
      obtain ⟨source, hsource, bytes, rfl⟩ := h e (by simp)
      obtain ⟨hmarks, hfails⟩ := ih fun e he => h e (by simp [he])
      cases source with
      | error => exact absurd hsource hsources
      | message | ready | notification | auth => exact ⟨hmarks, hfails⟩

/-- An error that is reported behind such bytes is reported before the next dispatch. -/
theorem marks_error {sources : List Source} {es : List Event} (h : PutBy sources es)
    (hsources : .error ∉ sources) (bytes : List UInt8) :
    marks (es ++ [.put .error bytes]) = [] ∧ failsNext (es ++ [.put .error bytes]) = true := by
  induction es with
  | nil => exact ⟨rfl, rfl⟩
  | cons e es ih =>
      obtain ⟨source, hsource, bytes, rfl⟩ := h e (by simp)
      have htail := ih fun e he => h e (by simp [he])
      cases source with
      | error => exact absurd hsource hsources
      | message | ready | notification | auth => exact htail

/-! ## What one turn adds to the history -/

/-- A turn that succeeds adds one mark. -/
theorem done_out (B : Backend σ) (S : Session σ) (m : Msg) (before after : Bool) :
    ∃ new, (S.done B m before after).out = S.out ++ new ∧
      marks new = [⟨m.kind, m.body, false⟩] ∧ failsNext new = false := by
  obtain ⟨ready, hout, hready, -⟩ := between_out B { S.handled B m with
    sendReadyForQuery := m.kind.owesReady S.sendReadyForQuery before } (before && after)
  obtain ⟨hmarks, hfails⟩ := marks_putBy ((putBy_output B S.db m).append hready) (by simp)
  refine ⟨.dispatch m.kind m.body :: (B.output S.db m ++ ready), ?_, ?_, rfl⟩
  · rw [Session.done, hout]
    simp [Session.handled]
  · rw [marks, hmarks, hfails]

/-- A turn that fails adds one mark. -/
theorem cleared_out (B : Backend σ) (S : Session σ) (m : Msg) (e : ErrorReport) :
    ∃ new, ((S.handled B m).cleared B m e).out = S.out ++ new ∧
      marks new = [⟨m.kind, m.body, true⟩] ∧ failsNext new = false := by
  obtain ⟨hmarks, hfails⟩ :=
    marks_error (putBy_output B S.db m) (by simp) (69 :: encodeBody (B.errorBody e))
  refine ⟨.dispatch m.kind m.body ::
    (B.output S.db m ++ [.put .error (69 :: encodeBody (B.errorBody e))]), ?_, ?_, rfl⟩
  · simp [Session.cleared, Session.handled]
  · rw [marks, hmarks, hfails]

/-! ## One packet -/

/-- How many messages of a packet raise an error while data is left. -/
def Mode.failures (B : Backend σ) : Mode σ → List Turn → ℕ
  | _, [] => 0
  | M, t :: ts =>
    (if !M.skips t.kind && (B.answer M.db t.toMsg).error.isSome && !ts.isEmpty then 1 else 0) +
      (M.step B t.toMsg).failures B ts

/-- In skip mode only Sync is dispatched, or Terminate. -/
theorem Session.sync_of_dispatched (S : Session σ) {m : FrontendMsg} (hnot : S.skips m = false)
    (hk : m ≠ .terminate) (hskip : S.ignoreTillSync = true) : m = .sync := by
  rw [Session.skips, hskip, Bool.true_and] at hnot
  cases m with
  | sync => rfl
  | terminate => exact absurd rfl hk
  | query | parse | bind | execute | functionCall | close | describe | flush | copyData | copyDone
  | copyFail => cases hnot

/-- Outside skip mode the next message is dispatched. -/
theorem Session.ignoreTillSync_of_skips (S : Session σ) {m : FrontendMsg} (hs : S.skips m = true) :
    S.ignoreTillSync = true ∧ m ≠ .sync := by
  obtain ⟨hignore, hends⟩ := Bool.and_eq_true_iff.mp hs
  refine ⟨hignore, ?_⟩
  rintro rfl
  cases hends

/-- The end of a batch that fails `k` more times with data left: it is played to its end, or aborts. -/
def EndsBatch (S : Session σ) (ts : List Turn) (k : ℕ) (finish : Finish σ) : Prop :=
  if S.canaryEx + k ≤ 9 then
    ∃ S' new, finish = .flush S' [] ∧ S'.out = S.out ++ new ∧ failsNext new = false ∧
      OutsideSkip S.ignoreTillSync ts (marks new) S'.ignoreTillSync
  else finish = .abort

/-- A batch ends as it does without a skipped turn in front of it. -/
theorem EndsBatch.skipped {S : Session σ} {t : Turn} {ts : List Turn} {k : ℕ} {finish : Finish σ}
    (h : EndsBatch S ts k finish) (hs : S.skips t.kind = true) : EndsBatch S (t :: ts) k finish := by
  obtain ⟨hignore, hsync⟩ := S.ignoreTillSync_of_skips hs
  rw [EndsBatch] at h ⊢
  split_ifs at h ⊢ with hfew
  · obtain ⟨S', new, hflush, hout, hfails, houtside⟩ := h
    refine ⟨S', new, hflush, hout, hfails, ?_⟩
    rw [hignore] at houtside ⊢
    exact .skipped hsync houtside
  · exact h

/-- A batch behind a turn that is dispatched ends as it does from the session `S'` that the turn leaves. -/
theorem EndsBatch.dispatched {S S' : Session σ} {t : Turn} {ts : List Turn} {k k' : ℕ}
    {finish : Finish σ} {new : List Event} {failed : Bool} (h : EndsBatch S' ts k' finish)
    (hnot : S.skips t.kind = false) (hk : t.kind ≠ .terminate) (hout : S'.out = S.out ++ new)
    (hmarks : marks new = [⟨t.kind, t.body, failed⟩]) (hfails : failsNext new = false)
    (hskip : S'.ignoreTillSync = (failed && t.kind.extended))
    (hcanary : S'.canaryEx + k' = S.canaryEx + k) : EndsBatch S (t :: ts) k finish := by
  rw [EndsBatch, hcanary] at h
  rw [EndsBatch]
  split_ifs at h ⊢ with hfew
  · obtain ⟨S'', new', hflush, hout', hfails', houtside⟩ := h
    obtain ⟨hmarks', hfails₂⟩ := marks_append new hfails'
    refine ⟨S'', new ++ new', hflush, by rw [hout', hout, List.append_assoc], ?_, ?_⟩
    · rw [hfails₂, hfails]
    · rw [hmarks', hmarks]
      rw [hskip] at houtside
      exact .dispatched failed (fun htrue => S.sync_of_dispatched hnot hk htrue) houtside
  · exact h

/-- A packet without Terminate is played to its end, unless it fails too often. -/
theorem play_batch (B : Backend σ) (hb : b.sigsetjmp = true) {n p : ℕ} {ts : List Turn} {S : Session σ}
    (hn : p + (encodeTurns ts).length = n) (hkinds : ∀ t ∈ ts, t.kind ≠ .terminate)
    (hcanary : S.canaryEx ≤ 9) :
    EndsBatch S ts (S.mode.failures B ts) (S.play b B (Transport.more b .cma n) p ts) := by
  induction ts generalizing p S with
  | nil =>
      rw [EndsBatch, if_pos (by simpa [Mode.failures] using hcanary)]
      exact ⟨S, [], rfl, (List.append_nil _).symm, rfl, .nil⟩
  | cons t ts ih =>
      have hk : t.kind ≠ .terminate := hkinds t (by simp)
      have hlen : p + t.encode.length + (encodeTurns ts).length = n := by
        rw [encodeTurns_cons, List.length_append] at hn
        omega
      have hrest : ∀ t ∈ ts, t.kind ≠ .terminate := fun t ht => hkinds t (by simp [ht])
      by_cases hs : S.skips t.kind = true
      · have hskips : S.mode.skips t.kind = true := hs
        have hcount : S.mode.failures B (t :: ts) = S.mode.failures B ts := by
          rw [Mode.failures, Mode.step_of_skips B S t.toMsg hs, hskips]
          simp
        rw [play_skipped b B _ p t ts S hs, onward_cma B S hn id, hcount]
        exact (ih hlen hrest hcanary).skipped hs
      have hnot : S.skips t.kind = false := by simpa using hs
      have hskips : S.mode.skips t.kind = false := hnot
      have hleft : (S.ignoreTillSync && !t.kind.endsSkip) = false := hnot
      cases herror : (B.answer S.db t.toMsg).error with
      | none =>
          have herror' : (B.answer S.mode.db t.toMsg).error = none := herror
          have hcount : S.mode.failures B (t :: ts) = (S.mode.step B t.toMsg).failures B ts := by
            simp [Mode.failures, herror']
          rw [play_done b B _ p t ts S hnot hk herror, onward_cma B _ hn id, hcount]
          generalize Transport.more b .cma n (p + t.toMsg.encode.length) = before
          generalize Transport.more b .cma n (p + t.encode.length) = after
          obtain ⟨new, hout, hmarks, hfails⟩ := done_out B S t.toMsg before after
          have hsame : (S.done B t.toMsg before after).canaryEx = S.canaryEx := between_canaryEx B _ _
          have hplay := ih (S := S.done B t.toMsg before after) hlen hrest (by rwa [hsame])
          rw [S.mode_done B t.toMsg hnot herror] at hplay
          refine hplay.dispatched hnot hk hout hmarks hfails ?_ (by rw [hsame])
          simp [Session.done, Session.handled, hleft]
      | some e =>
          have herror' : (B.answer S.mode.db t.toMsg).error = some e := herror
          obtain ⟨new, hout, hmarks, hfails⟩ := cleared_out B S t.toMsg e
          have hafter : Transport.more b .cma n (p + t.encode.length) = !ts.isEmpty := more_after hn
          have hskip : ((S.handled B t.toMsg).cleared B t.toMsg e).ignoreTillSync =
              (true && t.kind.extended) := by
            simp [Session.cleared, Session.handled, hleft]
          by_cases hlast : ts = []
          · -- the last turn: its error is not counted
            subst hlast
            have hmore : Transport.more b .cma n (p + t.encode.length) = false := by simp [hafter]
            have hstop : EndsBatch ((S.handled B t.toMsg).cleared B t.toMsg e) [] 0
                (.flush ((S.handled B t.toMsg).cleared B t.toMsg e) []) := by
              rw [EndsBatch, if_pos (by exact hcanary)]
              exact ⟨_, [], rfl, (List.append_nil _).symm, rfl, .nil⟩
            rw [play_failed_last b B _ p t [] S hb hnot hk herror hmore]
            refine hstop.dispatched hnot hk hout hmarks hfails hskip ?_
            simp [Mode.failures, Session.cleared, Session.handled]
          have hmore : Transport.more b .cma n (p + t.encode.length) = true := by
            simp [hafter, hlast]
          have hcount : S.mode.failures B (t :: ts) =
              1 + (S.mode.step B t.toMsg).failures B ts := by
            simp [Mode.failures, herror', hskips, hlast]
          by_cases hlimit : 8 < S.canaryEx
          · rw [play_failed_abort b B _ p t ts S hb hnot hk herror hmore hlimit, EndsBatch, hcount,
              if_neg (by omega)]
          · rw [play_failed b B _ p t ts S hb hnot hk herror hmore hlimit,
              onward_cma B _ hn (fun h => by rw [h, Bool.true_or]), hcount]
            have hplay := ih (S := { (S.handled B t.toMsg).cleared B t.toMsg e with
              canaryEx := S.canaryEx + 1 }) hlen hrest (by show S.canaryEx + 1 ≤ 9; omega)
            have hmode : ({ (S.handled B t.toMsg).cleared B t.toMsg e with
                canaryEx := S.canaryEx + 1 } : Session σ).mode = S.mode.step B t.toMsg :=
              S.mode_cleared B t.toMsg hnot herror
            rw [hmode] at hplay
            exact hplay.dispatched hnot hk hout hmarks hfails hskip (Nat.add_assoc _ _ _)

@[simp] theorem finished_ignoreTillSync (B : Backend σ) (S : Session σ) :
    (S.finished B).ignoreTillSync = S.ignoreTillSync := by
  rw [Session.finished, between_ignoreTillSync, Session.notified]
  split_ifs <;> rfl

/-! ## Runs -/

/-- A call that returns, with a packet in the memory area. -/
def Serves (b : Build) (B : Backend σ) (s : State σ) (ts : List Turn) (s' : State σ) : Prop :=
  Calls b B (s.request .cma (encodeTurns ts)) (.ok () s')

/-- At most nine messages of the packet raise an error with data left behind them. -/
def FewErrors (B : Backend σ) (s : State σ) (ts : List Turn) : Prop := s.session.mode.failures B ts ≤ 9

/-- Every packet of the run is processed to its end, and in the run so far exactly the messages outside
skip mode were dispatched, in order and once each. -/
def Completes (b : Build) (B : Backend σ) (s : State σ) (ps : List (List Turn)) : Prop :=
  ∀ pre ts, pre ++ [ts] <+: ps → ∀ s₁, Reaches (Serves b B) s pre s₁ →
    ∃ s₂ new skip, Serves b B s₁ ts s₂ ∧ s₂.session.out = s.session.out ++ new ∧
      OutsideSkip s.ignoreTillSync (pre ++ [ts]).flatten (marks new) skip

/-- A batch with few errors is processed to its end, and leaves an idle backend. -/
theorem serves_of_fewErrors {s : State σ} {ts : List Turn} (hb : b.sigsetjmp = true)
    (hquiet : QuietNotify B) (hidle : Idle B s) (hbatch : Batch B s ts) (hfew : FewErrors B s ts) :
    ∃ s' new, Serves b B s ts s' ∧ Idle B s' ∧ s'.session.out = s.session.out ++ new ∧
      failsNext new = false ∧ OutsideSkip s.ignoreTillSync ts (marks new) s'.ignoreTillSync := by
  have hcanary : s.session.opening.canaryEx = 0 := hidle.canary
  have hplay := play_batch B hb (S := s.session.opening) (Nat.zero_add (encodeTurns ts).length)
    hbatch.kinds (by omega)
  rw [EndsBatch, if_pos (by rw [hcanary, Nat.zero_add]; exact hfew)] at hplay
  obtain ⟨S, new, hflush, hout, hfails, houtside⟩ := hplay
  have hcall := call_packet hidle hquiet .cma hbatch.nonempty hbatch.covers (b := b)
  rw [State.plays, hflush] at hcall
  obtain ⟨s', hcalls, hanswered⟩ := hcall
  obtain ⟨notes, ready, hlast, hnotes, hready, -⟩ := finished_out B S
  have hsession := hanswered.session
  have hskip : s'.ignoreTillSync = S.ignoreTillSync :=
    (congrArg Session.ignoreTillSync hsession).trans (finished_ignoreTillSync B S)
  obtain ⟨hmarks, hfails'⟩ := marks_putBy (hnotes.append hready) (by simp)
  obtain ⟨hmarks₂, hfails₂⟩ := marks_append new hfails'
  refine ⟨s', new ++ (notes ++ ready), hcalls, hanswered.idle, ?_, hfails₂.trans hfails, ?_⟩
  · rw [hsession, ← List.append_assoc]
    refine hlast.trans ?_
    rw [hout]
    rfl
  · rw [hmarks₂, hmarks, List.append_nil, hskip]
    exact houtside

/-- A batch with more errors ends in `abort()`. -/
theorem not_serves_of_failures {s s' : State σ} {ts : List Turn} (hb : b.sigsetjmp = true)
    (hquiet : QuietNotify B) (hidle : Idle B s) (hbatch : Batch B s ts) (hmany : ¬FewErrors B s ts) :
    ¬Serves b B s ts s' := by
  have hcanary : s.session.opening.canaryEx = 0 := hidle.canary
  have hplay := play_batch B hb (S := s.session.opening) (Nat.zero_add (encodeTurns ts).length)
    hbatch.kinds (by omega)
  rw [EndsBatch, if_neg (by rw [hcanary, Nat.zero_add]; exact hmany)] at hplay
  have hcall := call_packet hidle hquiet .cma hbatch.nonempty hbatch.covers (b := b)
  rw [State.plays, hplay] at hcall
  obtain ⟨s₁, habort⟩ := hcall
  intro hserves
  cases hserves.unique habort

/-- What a run of batches keeps: the backend is idle after every call, and the messages dispatched are
those outside skip mode. -/
theorem run_batches {s s₁ : State σ} {pre : List (List Turn)} (hb : b.sigsetjmp = true)
    (hquiet : QuietNotify B) (hidle : Idle B s) (hbatch : Guarded (Serves b B) (Batch B) s pre)
    (hrun : Reaches (Serves b B) s pre s₁) :
    Idle B s₁ ∧ ∃ new, s₁.session.out = s.session.out ++ new ∧ failsNext new = false ∧
      OutsideSkip s.ignoreTillSync pre.flatten (marks new) s₁.ignoreTillSync := by
  refine Reaches.inv (I := fun pre s₁ => Idle B s₁ ∧ ∃ new, s₁.session.out = s.session.out ++ new ∧
    failsNext new = false ∧ OutsideSkip s.ignoreTillSync pre.flatten (marks new) s₁.ignoreTillSync)
    ⟨hidle, [], (List.append_nil _).symm, rfl, .nil⟩ ?_ hbatch hrun
  rintro pre ts s₁ s₂ ⟨hidle₁, new, hout, hfails, houtside⟩ hbatch₁ hserves
  by_cases hfew : FewErrors B s₁ ts
  · obtain ⟨s', new', hserves', hidle', hout', hfails', houtside'⟩ :=
      serves_of_fewErrors hb hquiet hidle₁ hbatch₁ hfew
    cases hserves.unique hserves'
    obtain ⟨hmarks, hfails₂⟩ := marks_append new hfails'
    refine ⟨hidle', new ++ new', by rw [hout', hout, List.append_assoc], hfails₂.trans hfails, ?_⟩
    rw [List.flatten_append, List.flatten_singleton, hmarks]
    exact houtside.append houtside'
  · exact absurd hserves (not_serves_of_failures hb hquiet hidle₁ hbatch₁ hfew)

/-- **Runs of batches complete exactly when their packets have few errors.** -/
theorem completes_iff {s : State σ} {ps : List (List Turn)} (hb : b.sigsetjmp = true)
    (hquiet : QuietNotify B) (hidle : Idle B s) (hbatch : Guarded (Serves b B) (Batch B) s ps) :
    Completes b B s ps ↔ Guarded (Serves b B) (FewErrors B) s ps := by
  constructor
  · intro hcompletes pre ts hpre s₁ hrun
    by_contra hmany
    have hbefore : pre <+: ps := (List.prefix_append pre [ts]).trans hpre
    obtain ⟨hidle₁, -⟩ := run_batches hb hquiet hidle (hbatch.of_prefix hbefore) hrun
    obtain ⟨s₂, -, -, hserves, -⟩ := hcompletes pre ts hpre s₁ hrun
    exact not_serves_of_failures hb hquiet hidle₁ (hbatch pre ts hpre s₁ hrun) hmany hserves
  · intro hfew pre ts hpre s₁ hrun
    have hbefore : pre <+: ps := (List.prefix_append pre [ts]).trans hpre
    obtain ⟨hidle₁, new, hout, hfails, houtside⟩ :=
      run_batches hb hquiet hidle (hbatch.of_prefix hbefore) hrun
    obtain ⟨s₂, new', hserves, -, hout', hfails', houtside'⟩ :=
      serves_of_fewErrors hb hquiet hidle₁ (hbatch pre ts hpre s₁ hrun) (hfew pre ts hpre s₁ hrun)
    refine ⟨s₂, new ++ new', s₂.ignoreTillSync, hserves, by rw [hout', hout, List.append_assoc], ?_⟩
    rw [List.flatten_append, List.flatten_singleton, (marks_append new hfails').1]
    exact houtside.append houtside'

/-- One packet with few errors. -/
theorem completes_iff_three :
    Completes Build.emscripten (Backend.failing []) (State.waiting ())
      [List.replicate 3 Msg.query.turn] :=
  (completes_iff rfl (quietNotify_stateless _) (idle_waiting _ ())
    (guarded_singleton (batch_failing [] 2))).mpr (guarded_singleton (by unfold FewErrors; decide))

/-- Eleven Query messages that all fail abort the process. -/
theorem not_completes_eleven :
    ¬Completes Build.emscripten (Backend.failing []) (State.waiting ())
      [List.replicate 11 Msg.query.turn] := by
  intro hcompletes
  obtain ⟨s₂, -, -, hserves, -⟩ := hcompletes [] _ List.prefix_rfl _ .nil
  refine not_serves_of_failures rfl (quietNotify_stateless _) (idle_waiting _ ()) (batch_failing [] 10)
    ?_ hserves
  unfold FewErrors
  decide

end PgliteBuild
