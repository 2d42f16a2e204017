import PgliteBuild.Session.Basic

/-! # What a session puts on the connection

The events between two dispatches are bytes that are put on behalf of the message, of its error, of a
notification or of ReadyForQuery. `PutBy` says on whose behalf a stretch of the history was put. -/

namespace PgliteBuild

open Framing

variable {σ : Type} {sources sources' : List Source} {es es' : List Event}

/-- Only bytes are put, on behalf of one of the sources. -/
def PutBy (sources : List Source) (es : List Event) : Prop :=
  ∀ e ∈ es, ∃ source ∈ sources, ∃ bytes, e = .put source bytes

/-- Nothing is put on behalf of anyone. -/
theorem PutBy.nil (sources : List Source) : PutBy sources [] := fun e he => by cases he

/-- One event that puts bytes of `source` is put by `source`. -/
theorem PutBy.singleton (source : Source) (bytes : List UInt8) :
    PutBy [source] [.put source bytes] := by
  intro e he
  exact ⟨source, by simp, bytes, List.mem_singleton.mp he⟩

/-- Two stretches together are put on behalf of the sources of both. -/
theorem PutBy.append (h : PutBy sources es) (h' : PutBy sources' es') :
    PutBy (sources ++ sources') (es ++ es') := by
  intro e he
  rcases List.mem_append.mp he with he | he
  · obtain ⟨source, hsource, bytes, rfl⟩ := h e he
    exact ⟨source, by simp [hsource], bytes, rfl⟩
  · obtain ⟨source, hsource, bytes, rfl⟩ := h' e he
    exact ⟨source, by simp [hsource], bytes, rfl⟩

/-- A stretch stays put on behalf of a larger set of sources. -/
theorem PutBy.mono (h : PutBy sources es) (hsub : sources ⊆ sources') : PutBy sources' es := by
  intro e he
  obtain ⟨source, hsource, hput⟩ := h e he
  exact ⟨source, hsub hsource, hput⟩

/-- A response puts on behalf of its source only. -/
theorem putBy_puts (source : Source) (r : Response σ) : PutBy [source] (r.puts source) := by
  intro e he
  obtain ⟨a, -, ha⟩ := List.mem_filterMap.mp he
  cases a with
  | putbytes bytes => exact ⟨source, by simp, bytes, (Option.some.inj ha).symm⟩
  | flush => cases ha
  | copyRead => cases ha

/-- What a message that succeeds puts is put on its own behalf, CloseComplete included. -/
theorem putBy_output (B : Backend σ) (d : σ) (m : Msg) : PutBy [.message] (B.output d m) := by
  rw [Backend.output]
  split_ifs
  · exact ((putBy_puts .message _).append (PutBy.singleton .message _)).mono (by simp)
  · rw [List.append_nil]
    exact putBy_puts .message _

/-- The output of a message that fails ends with its error. -/
theorem putBy_error (B : Backend σ) (d : σ) (m : Msg) (bytes : List UInt8) :
    PutBy [.message, .error] (B.output d m ++ [.put .error bytes]) :=
  (putBy_output B d m).append (PutBy.singleton .error bytes)

/-- The end of a round puts one ReadyForQuery if more data is buffered and one is due, and nothing otherwise. -/
theorem between_out (B : Backend σ) (S : Session σ) (more : Bool) :
    ∃ new, (S.between B more).out = S.out ++ new ∧ PutBy [.ready] new ∧
      new.length = (more && S.sendReadyForQuery).toNat := by
  rw [Session.between]
  split_ifs with h
  · exact ⟨[B.readyPut S.db], rfl, PutBy.singleton _ _, by rw [h]; rfl⟩
  · rw [Bool.not_eq_true] at h
    exact ⟨[], (List.append_nil _).symm, PutBy.nil _, by rw [h]; rfl⟩

/-- The delivery of notifications puts nothing but notifications. -/
theorem notified_out (B : Backend σ) (S : Session σ) :
    ∃ new, (S.notified B).out = S.out ++ new ∧ PutBy [.notification] new := by
  rw [Session.notified]
  split_ifs
  · exact ⟨_, rfl, putBy_puts .notification _⟩
  · exact ⟨[], rfl, PutBy.nil _⟩
  · exact ⟨[], (List.append_nil _).symm, PutBy.nil _⟩

/-- The delivery of notifications leaves the flag of ReadyForQuery alone. -/
@[simp] theorem notified_sendReadyForQuery (B : Backend σ) (S : Session σ) :
    (S.notified B).sendReadyForQuery = S.sendReadyForQuery := by
  rw [Session.notified]
  split_ifs <;> rfl

/-- The end of a packet puts notifications, and the ReadyForQuery that is owed. -/
theorem finished_out (B : Backend σ) (S : Session σ) :
    ∃ notes ready, (S.finished B).out = S.out ++ (notes ++ ready) ∧ PutBy [.notification] notes ∧
      PutBy [.ready] ready ∧ ready.length = S.sendReadyForQuery.toNat := by
  obtain ⟨notes, hnotes, hnotification⟩ := notified_out B S
  obtain ⟨ready, hready, hput, hlength⟩ := between_out B (S.notified B) true
  rw [Bool.true_and, notified_sendReadyForQuery] at hlength
  refine ⟨notes, ready, ?_, hnotification, hput, hlength⟩
  rw [Session.finished, hready, hnotes, List.append_assoc]

/-! ## Histories grow -/

/-- The end of a round takes nothing back. -/
theorem between_out_grows (B : Backend σ) (S : Session σ) (more : Bool) :
    S.out <+: (S.between B more).out := by
  obtain ⟨new, hout, -⟩ := between_out B S more
  exact hout ▸ List.prefix_append _ _

/-- The end of a packet takes nothing back. -/
theorem finished_out_grows (B : Backend σ) (S : Session σ) : S.out <+: (S.finished B).out := by
  obtain ⟨notes, ready, hout, -⟩ := finished_out B S
  exact hout ▸ List.prefix_append _ _

/-- A message that is handled takes nothing back. -/
theorem handled_out_grows (B : Backend σ) (S : Session σ) (m : Msg) :
    S.out <+: (S.handled B m).out := List.prefix_append _ _

/-- A message that succeeds takes nothing back, up to the end of its round. -/
theorem done_out_grows (B : Backend σ) (S : Session σ) (m : Msg) (before after : Bool) :
    S.out <+: (S.done B m before after).out := by
  have hhandled := handled_out_grows B S m
  exact hhandled.trans (between_out_grows B { S.handled B m with
    sendReadyForQuery := m.kind.owesReady S.sendReadyForQuery before } (before && after))

/-- A message that fails takes nothing back, with its error cleared. -/
theorem cleared_out_grows (B : Backend σ) (S : Session σ) (m : Msg) (e : ErrorReport) :
    S.out <+: ((S.handled B m).cleared B m e).out :=
  (handled_out_grows B S m).trans (List.prefix_append _ _)

/-- A played packet adds to the history. -/
theorem play_out_grows (B : Backend σ) {b : Build} {more : ℕ → Bool} {p : ℕ} {ts rest : List Turn}
    {S S' : Session σ} (h : S.play b B more p ts = .flush S' rest) : S.out <+: S'.out := by
  induction ts generalizing p S with
  | nil =>
      cases h
      exact List.prefix_rfl
  | cons t ts ih =>
      have honward : ∀ (pipelining : Bool) (S₁ : Session σ),
          S₁.onward b B more p t ts pipelining = .flush S' rest → S₁.out <+: S'.out := by
        intro pipelining S₁ h
        rw [Session.onward] at h
        split_ifs at h
        · exact ih h
        · cases h
          exact List.prefix_rfl
      by_cases hs : S.skips t.kind = true
      · rw [play_skipped b B _ p t ts S hs] at h
        exact honward _ S h
      have hnot : S.skips t.kind = false := by simpa using hs
      by_cases hk : t.kind = .terminate
      · rw [play_closed b B _ p t ts S hnot hk] at h
        cases h
        exact handled_out_grows B S t.toMsg
      cases herror : (B.answer S.db t.toMsg).error with
      | none =>
          rw [play_done b B _ p t ts S hnot hk herror] at h
          exact (done_out_grows B S t.toMsg _ _).trans (honward _ _ h)
      | some e =>
          have hcleared := cleared_out_grows B S t.toMsg e
          cases hb : b.sigsetjmp with
          | false =>
              rw [play_raised b B _ p t ts S hb hnot hk herror] at h
              cases h
          | true =>
              cases hmore : more (p + t.encode.length) with
              | false =>
                  rw [play_failed_last b B _ p t ts S hb hnot hk herror hmore] at h
                  cases h
                  exact hcleared
              | true =>
                  by_cases hlimit : 8 < S.canaryEx
                  · rw [play_failed_abort b B _ p t ts S hb hnot hk herror hmore hlimit] at h
                    cases h
                  · rw [play_failed b B _ p t ts S hb hnot hk herror hmore hlimit] at h
                    have hrest := honward _ _ h
                    exact hcleared.trans hrest

end PgliteBuild
