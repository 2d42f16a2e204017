import Mathlib.Data.List.Chain
import PgliteBuild.Session.Call
import PgliteBuild.Session.Output

/-! # Accounting for ReadyForQuery

The reply to a packet is a sequence of items: bytes of the output of messages, and ReadyForQuery. A
client expects one ReadyForQuery behind the output of every Query, FunctionCall and Sync that is
dispatched, and no other. `Visit` lists the turns of a packet that the loop reaches, and
`accounted_iff` says when the reply is as expected: after a message that fails and still owes its
ReadyForQuery, the very next message must settle it. -/

namespace PgliteBuild

open Framing

variable {σ : Type} {b : Build} {B : Backend σ}

/-! ## The items of a reply -/

/-- What an event adds to the reply: bytes that a message puts, or ReadyForQuery (`none`). -/
def Event.items : Event → List (Option UInt8)
  | .put .message bytes | .put .error bytes => bytes.map some
  | .put .ready _ => [none]
  | .put .notification _ | .put .auth _ => []
  | .dispatch _ _ | .sigsetjmp | .raising _ | .wireFlush | .rename | .prompt => []

/-- The items of a reply. -/
def replyItems (es : List Event) : List (Option UInt8) := es.flatMap Event.items

/-- One ReadyForQuery if it is due. -/
def due (owed : Bool) : List (Option UInt8) := if owed then [none] else []

/-- The items that a client expects: behind the output of each message, before the next is
dispatched, its ReadyForQuery. -/
def expectedItems : Bool → List Event → List (Option UInt8)
  | owed, [] => due owed
  | owed, .dispatch m _ :: es => due owed ++ expectedItems m.answersReady es
  | owed, .put .message bytes :: es | owed, .put .error bytes :: es =>
    bytes.map some ++ expectedItems owed es
  | owed, _ :: es => expectedItems owed es

/-- The output of a message and its error are expected as they are put. -/
theorem expectedItems_output {es : List Event} (h : PutBy [.message, .error] es) (owed : Bool)
    (es' : List Event) :
    expectedItems owed (es ++ es') = replyItems es ++ expectedItems owed es' := by
  induction es with
  | nil => rfl
  | cons e es ih =>
      have htail := ih fun e he => h e (by simp [he])
      obtain ⟨source, hsource, bytes, rfl⟩ := h e (by simp)
      rcases List.mem_pair.mp hsource with rfl | rfl
      · simp [expectedItems, replyItems, Event.items] at htail ⊢
        exact htail
      · simp [expectedItems, replyItems, Event.items] at htail ⊢
        exact htail

/-- Output does not contain ReadyForQuery. -/
theorem none_notMem_output {es : List Event} (h : PutBy [.message, .error] es) :
    none ∉ replyItems es := by
  intro hmem
  obtain ⟨e, he, hnone⟩ := List.mem_flatMap.mp hmem
  obtain ⟨source, hsource, bytes, rfl⟩ := h e he
  rcases List.mem_pair.mp hsource with rfl | rfl <;> simp [Event.items] at hnone

/-- Notifications and ReadyForQuery are not expected. -/
theorem expectedItems_trailer {es : List Event} (h : PutBy [.notification, .ready] es) (owed : Bool)
    (es' : List Event) : expectedItems owed (es ++ es') = expectedItems owed es' := by
  induction es with
  | nil => rfl
  | cons e es ih =>
      have htail := ih fun e he => h e (by simp [he])
      obtain ⟨source, hsource, bytes, rfl⟩ := h e (by simp)
      rcases List.mem_pair.mp hsource with rfl | rfl
      · exact htail
      · exact htail

/-- Every put of ReadyForQuery is one item. -/
theorem replyItems_ready {es : List Event} (h : PutBy [.ready] es) :
    replyItems es = List.replicate es.length none := by
  induction es with
  | nil => rfl
  | cons e es ih =>
      have htail := ih fun e he => h e (by simp [he])
      obtain ⟨source, hsource, bytes, rfl⟩ := h e (by simp)
      obtain rfl := List.mem_singleton.mp hsource
      rw [List.length_cons, List.replicate_succ, ← htail]
      rfl

/-- Notifications are no items. -/
theorem replyItems_notification {es : List Event} (h : PutBy [.notification] es) :
    replyItems es = [] := by
  refine List.flatMap_eq_nil_iff.mpr fun e he => ?_
  obtain ⟨source, hsource, bytes, rfl⟩ := h e he
  obtain rfl := List.mem_singleton.mp hsource
  rfl

/-- The items of two stretches are those of the first and those of the second. -/
theorem replyItems_append (es es' : List Event) :
    replyItems (es ++ es') = replyItems es ++ replyItems es' := List.flatMap_append

/-! ## The turns that the loop reaches -/

/-- A turn that the loop reaches, in the mode it finds, and whether data is buffered behind its
message. -/
structure Visit (σ : Type) where
  turn : Turn
  mode : Mode σ
  before : Bool

/-- The turn at position `p`. -/
def visit (more : ℕ → Bool) (p : ℕ) (t : Turn) (M : Mode σ) : Visit σ :=
  ⟨t, M, more (p + t.toMsg.encode.length)⟩

namespace Visit

variable (B) (v : Visit σ)

/-- The message is dispatched and raises an error. -/
def Fails : Prop :=
  v.mode.skips v.turn.kind = false ∧ (B.answer v.mode.db v.turn.toMsg).error.isSome = true

instance : Decidable (v.Fails B) := inferInstanceAs (Decidable (_ ∧ _))

/-- What the visit leaves of `pipelining`: whether data was buffered behind the message, unless the long jump
of its error makes it true again. -/
def pipelining (b : Build) : Bool := v.before || (decide (v.Fails B) && b.pipeliningRestored)

variable {B v}

/-- Behind a message that fails `pipelining` is what the long jump leaves. -/
theorem pipelining_of_fails (h : v.Fails B) : v.pipelining B b = (v.before || b.pipeliningRestored) := by
  rw [pipelining, decide_eq_true h, Bool.true_and]

/-- Behind a message that does not fail `pipelining` tells whether data was buffered behind it. -/
theorem pipelining_of_not_fails (h : ¬v.Fails B) : v.pipelining B b = v.before := by
  rw [pipelining, decide_eq_false h, Bool.false_and, Bool.or_false]

end Visit

/-- The turns that the loop reaches. -/
def visits (b : Build) (B : Backend σ) (more : ℕ → Bool) : ℕ → List Turn → Mode σ → List (Visit σ)
  | _, [], _ => []
  | p, t :: ts, M =>
    visit more p t M ::
      if (visit more p t M).pipelining B b && more (p + t.encode.length) then
        visits b B more (p + t.encode.length) ts (M.step B t.toMsg)
      else []

/-- The turns that the loop reaches after the turn `t`, in the mode that it leaves and with what it leaves of
`pipelining`. -/
def following (b : Build) (B : Backend σ) (more : ℕ → Bool) (p : ℕ) (t : Turn) (ts : List Turn)
    (pipelining : Bool) (M : Mode σ) : List (Visit σ) :=
  if pipelining && more (p + t.encode.length) then visits b B more (p + t.encode.length) ts M else []

/-- The loop reaches the first turn, and those that follow it. -/
theorem visits_cons (b : Build) (B : Backend σ) (more : ℕ → Bool) (p : ℕ) (t : Turn) (ts : List Turn)
    (M : Mode σ) :
    visits b B more p (t :: ts) M = visit more p t M ::
      following b B more p t ts ((visit more p t M).pipelining B b) (M.step B t.toMsg) := rfl

namespace Visit

variable (B) (v : Visit σ)

/-- The message fails, and its ReadyForQuery is put later. -/
def Owes : Prop := v.Fails B ∧ v.turn.kind.answersReady = true

/-- The message puts nothing before the ReadyForQuery that is owed to the message before it: a COPY
message or Flush, or a Bind, Execute or Describe without output at the end of the buffered data. -/
def Pays : Prop :=
  ¬v.Fails B ∧ replyItems (B.output v.mode.db v.turn.toMsg) = [] ∧
    match v.turn.kind with
    | .flush | .copyData | .copyDone | .copyFail => True
    | .bind | .execute | .describe => v.before = false
    | .query | .parse | .functionCall | .close | .sync | .terminate => False

/-- What is owed is paid by the next visit. -/
def Settles (w : Visit σ) : Prop := v.Owes B → w.Pays B

end Visit

/-! ## The balance after a turn -/

/-- The events `new` of the visits `vs` and the end of the packet, from a session that owes a
ReadyForQuery or not. -/
structure Books (B : Backend σ) (owed skip : Bool) (vs : List (Visit σ)) (new : List Event) : Prop where
  /-- Nothing is put before the first dispatch. -/
  clean : expectedItems true new = none :: expectedItems false new
  /-- A ReadyForQuery can be lost, but there is never one too many. -/
  count : (replyItems new).count none ≤ (expectedItems false new).count none + owed.toNat
  even : owed = false → (replyItems new = expectedItems false new ↔ vs.IsChain (Visit.Settles B))
  debt : owed = true → skip = false → (replyItems new = none :: expectedItems false new ↔
    (∀ v ∈ vs.head?, v.Pays B) ∧ vs.IsChain (Visit.Settles B))

/-- As many ReadyForQuery as are owed are those that are due. -/
theorem replicate_toNat (owed : Bool) : List.replicate owed.toNat none = due owed := by
  cases owed <;> rfl

/-- What the end of a packet puts: notifications, and the ReadyForQuery that is owed. -/
theorem finished_items (B : Backend σ) (S : Session σ) :
    ∃ new, (S.finished B).out = S.out ++ new ∧ PutBy [.notification, .ready] new ∧
      replyItems new = due S.sendReadyForQuery := by
  obtain ⟨notes, ready, hout, hnotes, hready, hlength⟩ := finished_out B S
  refine ⟨notes ++ ready, hout, hnotes.append hready, ?_⟩
  rw [replyItems_append, replyItems_notification hnotes, replyItems_ready hready, hlength,
    replicate_toNat, List.nil_append]

/-- Behind the last visit the books are closed. -/
theorem books_trailer {B : Backend σ} {owed skip : Bool} {new : List Event}
    (h : PutBy [.notification, .ready] new)
    (hitems : replyItems new = due owed) : Books B owed skip [] new := by
  have hexpected : ∀ p, expectedItems p new = due p := by
    intro p
    have hnil := expectedItems_trailer h p []
    rwa [List.append_nil] at hnil
  refine ⟨?_, ?_, ?_, ?_⟩
  · rw [hexpected, hexpected]
    rfl
  · rw [hitems, hexpected]
    cases owed <;> simp [due]
  · rintro rfl
    rw [hitems, hexpected]
    simp
  · rintro rfl -
    rw [hitems, hexpected]
    simp [due]

/-- A skipped message changes no balance. -/
theorem Books.skipped {owed : Bool} {v : Visit σ} {vs : List (Visit σ)} {new : List Event}
    (h : Books B owed true vs new) (hs : v.mode.skips v.turn.kind = true) :
    Books B owed true (v :: vs) new := by
  have hsettles : v.Settles B = fun _ => True := by
    funext w
    simp [Visit.Settles, Visit.Owes, Visit.Fails, hs]
  have hchain : (v :: vs).IsChain (Visit.Settles B) ↔ vs.IsChain (Visit.Settles B) := by
    rw [List.isChain_cons, hsettles]
    simp
  refine ⟨h.clean, h.count, fun howed => ?_, fun _ hskip => by cases hskip⟩
  rw [hchain]
  exact h.even howed

/-- Close always puts something. -/
theorem replyItems_close {d : σ} {m : Msg} (hk : m.kind = .close) (hok : (B.answer d m).error = none) :
    replyItems (B.output d m) ≠ [] := by
  rw [Backend.output, if_pos ⟨hk, hok⟩, replyItems, List.flatMap_append]
  simp [Event.items]

/-- A list that starts with a byte does not start with ReadyForQuery. -/
theorem output_ne_cons_none {es : List Event} (h : PutBy [.message, .error] es) (hne : replyItems es ≠ [])
    (xs ys : List (Option UInt8)) : replyItems es ++ xs ≠ none :: ys := by
  have hnone := none_notMem_output h
  cases hitems : replyItems es with
  | nil => exact absurd hitems hne
  | cons x items =>
      rw [hitems] at hnone
      intro heq
      obtain ⟨rfl, -⟩ := List.cons.inj heq
      exact hnone (by simp)

/-- One ReadyForQuery is due if one is owed. -/
theorem count_due (owed : Bool) : (due owed).count none = owed.toNat := by
  cases owed <;> rfl

/-- A visit that owes nothing leaves the chain to the visits after it. -/
theorem isChain_of_not_owes {v : Visit σ} (h : ¬v.Owes B) (vs : List (Visit σ)) :
    (v :: vs).IsChain (Visit.Settles B) ↔ vs.IsChain (Visit.Settles B) := by
  rw [List.isChain_cons]
  exact and_iff_right fun w _ howes => absurd howes h

/-- A message owes no more ReadyForQuery than it answers and than was owed before it. -/
theorem FrontendMsg.owesReady_le (m : FrontendMsg) (owed more : Bool) :
    (m.owesReady owed more).toNat ≤ m.answersReady.toNat + owed.toNat := by
  cases m <;> cases owed <;> cases more <;> decide

/-- **A message that succeeds.** `es` is what follows its output, and `I` and `E` are the items that
are put and expected behind its own ReadyForQuery. -/
theorem books_done {v : Visit σ} {vs : List (Visit σ)} {owed skip : Bool} {es : List Event}
    {I E : List (Option UInt8)} (hok : (B.answer v.mode.db v.turn.toMsg).error = none)
    (hitems : replyItems es = due (v.turn.kind.owesReady owed v.before) ++ I)
    (hexpected : ∀ p, expectedItems p es = due p ++ E) (hcount : I.count none ≤ E.count none)
    (hchain : I = E ↔ vs.IsChain (Visit.Settles B)) :
    Books B owed skip (v :: vs)
      (.dispatch v.turn.kind v.turn.body :: (B.output v.mode.db v.turn.toMsg ++ es)) := by
  have houtput : PutBy [.message, .error] (B.output v.mode.db v.turn.toMsg) :=
    (putBy_output B v.mode.db v.turn.toMsg).mono (by simp)
  have hput : replyItems (.dispatch v.turn.kind v.turn.body ::
        (B.output v.mode.db v.turn.toMsg ++ es)) = replyItems (B.output v.mode.db v.turn.toMsg) ++
      (due (v.turn.kind.owesReady owed v.before) ++ I) := by
    rw [← hitems, replyItems, List.flatMap_cons, List.flatMap_append]
    rfl
  have hdue : ∀ p, expectedItems p (.dispatch v.turn.kind v.turn.body ::
        (B.output v.mode.db v.turn.toMsg ++ es)) = due p ++ (replyItems (B.output v.mode.db v.turn.toMsg) ++
      (due v.turn.kind.answersReady ++ E)) := by
    intro p
    rw [expectedItems, expectedItems_output houtput, hexpected]
  have hnot : ¬v.Fails B := fun h => by simpa [hok] using h.2
  have hrest : (v :: vs).IsChain (Visit.Settles B) ↔ I = E := by
    rw [isChain_of_not_owes (fun h => hnot h.1), hchain]
  refine ⟨?_, ?_, ?_, ?_⟩
  · rw [hdue, hdue]
    rfl
  · have hle := v.turn.kind.owesReady_le owed v.before
    rw [hput, hdue]
    simp only [List.count_append, count_due, Bool.toNat_false]
    omega
  · rintro rfl
    rw [hput, hdue, FrontendMsg.owesReady_false, hrest]
    simp [due]
  · rintro rfl -
    rw [hput, hdue, hrest]
    have hhead : (∀ w ∈ (v :: vs).head?, w.Pays B) ↔ v.Pays B := by simp
    rw [hhead]
    by_cases hquiet : replyItems (B.output v.mode.db v.turn.toMsg) = []
    swap
    · -- with output the owed ReadyForQuery comes too late, if at all
      refine iff_of_false ?_ fun h => hquiet h.1.2.1
      exact output_ne_cons_none houtput hquiet _ _
    -- one ReadyForQuery fewer can never be made up for
    have hlost : I ≠ none :: E := by
      rintro rfl
      rw [List.count_cons_self] at hcount
      omega
    rw [Visit.Pays, hquiet]
    have hclose : v.turn.kind ≠ .close := fun hk => replyItems_close hk hok hquiet
    cases hk : v.turn.kind with
    | query | functionCall | sync => simp [due, FrontendMsg.owesReady, FrontendMsg.answersReady, hlost]
    | parse | terminate => simp [due, FrontendMsg.owesReady, FrontendMsg.answersReady, hlost]
    | bind | execute | describe =>
        cases hb : v.before with
        | true => simp [due, FrontendMsg.owesReady, FrontendMsg.answersReady, hlost]
        | false => simp [due, FrontendMsg.owesReady, FrontendMsg.answersReady, hnot]
    | close => exact absurd hk hclose
    | flush | copyData | copyDone | copyFail =>
        simp [due, FrontendMsg.owesReady, FrontendMsg.answersReady, hnot]

/-- The messages that can fail outside of skip mode are answered by ReadyForQuery, or start skip
mode. -/
theorem answersReady_of_fails {d : σ} {m : Msg} {e : ErrorReport} (h : (B.answer d m).error = some e) :
    m.kind.answersReady = !m.kind.extended := by
  unfold Backend.answer at h
  cases hk : m.kind <;> simp_all [FrontendMsg.answersReady, FrontendMsg.extended]

/-- **A message that fails.** Its own ReadyForQuery is owed afterwards, unless skip mode starts. -/
theorem books_failed {v : Visit σ} {vs : List (Visit σ)} {owed skip : Bool} {es : List Event}
    {e : ErrorReport} (hs : v.mode.skips v.turn.kind = false)
    (herror : (B.answer v.mode.db v.turn.toMsg).error = some e)
    (h : Books B (owed || !v.turn.kind.extended) v.turn.kind.extended vs es) :
    Books B owed skip (v :: vs) (.dispatch v.turn.kind v.turn.body ::
      (B.output v.mode.db v.turn.toMsg ++ .put .error (69 :: encodeBody (B.errorBody e)) :: es)) := by
  have hfails : v.Fails B := ⟨hs, by simp [herror]⟩
  have houtput := putBy_error B v.mode.db v.turn.toMsg (69 :: encodeBody (B.errorBody e))
  have hsome : replyItems (B.output v.mode.db v.turn.toMsg ++
      [.put .error (69 :: encodeBody (B.errorBody e))]) ≠ [] := by
    simp [replyItems, Event.items]
  have hanswers := answersReady_of_fails herror
  rw [List.append_cons]
  generalize B.output v.mode.db v.turn.toMsg ++ [.put .error (69 :: encodeBody (B.errorBody e))] = out
    at houtput hsome ⊢
  have hput : replyItems (.dispatch v.turn.kind v.turn.body :: (out ++ es)) =
      replyItems out ++ replyItems es := by
    rw [replyItems, List.flatMap_cons, List.flatMap_append]
    rfl
  have hexpected : ∀ p, expectedItems p (.dispatch v.turn.kind v.turn.body :: (out ++ es)) =
      due p ++ (replyItems out ++ (due v.turn.kind.answersReady ++ expectedItems false es)) := by
    intro p
    rw [expectedItems, expectedItems_output houtput]
    cases hready : v.turn.kind.answersReady with
    | true => rw [h.clean]; rfl
    | false => rfl
  refine ⟨?_, ?_, ?_, ?_⟩
  · rw [hexpected, hexpected]
    rfl
  · have hle := h.count
    rw [hput, hexpected]
    simp only [List.count_append, count_due, Bool.toNat_false, hanswers]
    cases owed <;> cases hext : v.turn.kind.extended <;> simp_all <;> omega
  · rintro rfl
    rw [hput, hexpected, List.isChain_cons]
    have hcancel : replyItems out ++ replyItems es = due false ++ (replyItems out ++
        (due v.turn.kind.answersReady ++ expectedItems false es)) ↔
        replyItems es = due v.turn.kind.answersReady ++ expectedItems false es := by
      rw [show due false = [] from rfl, List.nil_append, List.append_cancel_left_eq]
    rw [hcancel]
    cases hext : v.turn.kind.extended with
    | true =>
        -- skip mode starts, and nothing is owed
        rw [hext] at hanswers h
        have hsettled : ∀ w ∈ vs.head?, v.Settles B w := by
          rintro w - ⟨-, howes⟩
          rw [hanswers] at howes
          cases howes
        rw [hanswers, and_iff_right hsettled]
        exact h.even rfl
    | false =>
        rw [hext] at hanswers h
        have howes : v.Owes B := ⟨hfails, hanswers⟩
        have hsettled : (∀ w ∈ vs.head?, v.Settles B w) ↔ ∀ w ∈ vs.head?, w.Pays B :=
          forall₂_congr fun w _ => imp_iff_right howes
        rw [hanswers, hsettled]
        exact h.debt rfl rfl
  · rintro rfl -
    rw [hput, hexpected]
    refine iff_of_false (output_ne_cons_none houtput hsome _ _) fun hpays => ?_
    exact (hpays.1 v rfl).1 hfails

/-! ## A packet and its books -/

/-- A Sync message is dispatched. -/
def Event.isSync : Event → Bool
  | .dispatch .sync _ => true
  | _ => false

/-- Bytes that are put are no dispatch. -/
theorem countP_isSync_putBy {sources : List Source} {es : List Event} (h : PutBy sources es) :
    es.countP Event.isSync = 0 := by
  rw [List.countP_eq_zero]
  intro e he
  obtain ⟨source, -, bytes, rfl⟩ := h e he
  simp [Event.isSync]

/-- The packet `ts` ends as `finish` says after the visits `vs`, and their books are those of what the
session puts from now on. -/
def Accounts (B : Backend σ) (ts : List Turn) (vs : List (Visit σ)) (S : Session σ)
    (finish : Finish σ) : Prop :=
  ∃ S' new, finish = .flush S' (ts.drop vs.length) ∧ (S'.finished B).out = S.out ++ new ∧
    Books B S.sendReadyForQuery S.ignoreTillSync vs new ∧
    new.countP Event.isSync = vs.countP fun v => v.turn.kind = .sync

/-- A session that stops here. -/
theorem accounts_nil (B : Backend σ) (S : Session σ) (ts : List Turn) :
    Accounts B ts [] S (.flush S ts) := by
  obtain ⟨new, hout, htrailer, hitems⟩ := finished_items B S
  exact ⟨S, new, rfl, hout, books_trailer htrailer hitems, countP_isSync_putBy htrailer⟩

section Accounts

variable {S S' : Session σ} {v : Visit σ} {ts : List Turn} {vs : List (Visit σ)} {finish : Finish σ}

/-- A skipped turn in front leaves the books as they are. -/
theorem Accounts.skipped (h : Accounts B ts vs S finish) (hmode : v.mode = S.mode)
    (hs : S.skips v.turn.kind = true) : Accounts B (v.turn :: ts) (v :: vs) S finish := by
  obtain ⟨S', new, hfinish, hout, hbooks, hsyncs⟩ := h
  obtain ⟨hignore, hends⟩ := Bool.and_eq_true_iff.mp hs
  have hsync : v.turn.kind ≠ .sync := by
    intro hk
    rw [hk] at hends
    cases hends
  have hskips : v.mode.skips v.turn.kind = true := by
    rw [hmode]
    exact hs
  rw [hignore] at hbooks
  refine ⟨S', new, hfinish, hout, ?_, ?_⟩
  · rw [hignore]
    exact hbooks.skipped hskips
  · rw [hsyncs, List.countP_cons_of_neg (by simpa using hsync)]

/-- The dispatch of a message counts if it is a Sync. -/
theorem countP_isSync_dispatch (kind : FrontendMsg) (body : List UInt8) (es : List Event) :
    (Event.dispatch kind body :: es).countP Event.isSync =
      es.countP Event.isSync + if kind = .sync then 1 else 0 := by
  rw [List.countP_cons]
  cases kind <;> rfl

/-- The messages after a message that succeeded are played, and its ReadyForQuery was put before. -/
theorem Accounts.done (hmode : v.mode = S.mode)
    (hok : (B.answer S.db v.turn.toMsg).error = none)
    (h : Accounts B ts vs (S.done B v.turn.toMsg v.before true) finish) (hbefore : v.before = true) :
    Accounts B (v.turn :: ts) (v :: vs) S finish := by
  obtain ⟨S', new, hfinish, hout, hbooks, hsyncs⟩ := h
  obtain ⟨ready, hbetween, hready, hlength⟩ := between_out B { S.handled B v.turn.toMsg with
    sendReadyForQuery := v.turn.kind.owesReady S.sendReadyForQuery v.before } (v.before && true)
  have hdb : v.mode.db = S.db := congrArg Mode.db hmode
  -- nothing is owed any more
  have hnone : (S.done B v.turn.toMsg v.before true).sendReadyForQuery = false := by
    rw [Session.done, Session.between, hbefore]
    split_ifs with h
    · rfl
    · simpa using h
  rw [hnone] at hbooks
  rw [hbefore, Bool.and_self, Bool.true_and] at hlength
  have houtput := (putBy_output B S.db v.turn.toMsg).append hready
  refine ⟨S', .dispatch v.turn.kind v.turn.body :: (B.output v.mode.db v.turn.toMsg ++ (ready ++ new)),
    hfinish, ?_, ?_, ?_⟩
  · rw [hout, Session.done, hbetween, hdb]
    simp [Session.handled]
  · refine books_done (by rw [hdb]; exact hok) ?_ ?_ (by simpa using hbooks.count) (hbooks.even rfl)
    · rw [replyItems_append, replyItems_ready hready, hlength, replicate_toNat, hbefore]
    · intro p
      rw [expectedItems_trailer (hready.mono (by simp))]
      cases p with
      | true => exact hbooks.clean
      | false => rfl
  · rw [countP_isSync_dispatch, ← List.append_assoc, List.countP_append, hdb,
      countP_isSync_putBy houtput, hsyncs, List.countP_cons, Nat.zero_add]
    simp

/-- The packet stops after a message that succeeded, and its ReadyForQuery is put at the end. -/
theorem accounts_last {after : Bool} (hmode : v.mode = S.mode)
    (hok : (B.answer S.db v.turn.toMsg).error = none) (hstop : (v.before && after) = false)
    (ts : List Turn) :
    Accounts B (v.turn :: ts) [v] S (.flush (S.done B v.turn.toMsg v.before after) ts) := by
  obtain ⟨new, hout, htrailer, hitems⟩ := finished_items B (S.done B v.turn.toMsg v.before after)
  have hdb : v.mode.db = S.db := congrArg Mode.db hmode
  rw [Session.done, hstop] at hout hitems
  have houtput := (putBy_output B S.db v.turn.toMsg).append htrailer
  refine ⟨_, .dispatch v.turn.kind v.turn.body :: (B.output v.mode.db v.turn.toMsg ++ new), rfl, ?_, ?_,
    ?_⟩
  · rw [Session.done, hstop, hout, hdb]
    simp [Session.between, Session.handled]
  · refine books_done (I := []) (E := []) (by rw [hdb]; exact hok) ?_ ?_ (le_refl _) (by simp)
    · rw [hitems, List.append_nil]
      rfl
    · intro p
      simpa [expectedItems] using expectedItems_trailer htrailer p []
  · rw [countP_isSync_dispatch, hdb, countP_isSync_putBy houtput, List.countP_cons]
    simp

/-- The messages after a message that failed are played. -/
theorem Accounts.failed {e : ErrorReport} {count : ℕ} (hmode : v.mode = S.mode)
    (hs : S.skips v.turn.kind = false) (herror : (B.answer S.db v.turn.toMsg).error = some e)
    (h : Accounts B ts vs
      { (S.handled B v.turn.toMsg).cleared B v.turn.toMsg e with canaryEx := count } finish) :
    Accounts B (v.turn :: ts) (v :: vs) S finish := by
  obtain ⟨S', new, hfinish, hout, hbooks, hsyncs⟩ := h
  have hdb : v.mode.db = S.db := congrArg Mode.db hmode
  have hleft : (S.ignoreTillSync && !v.turn.kind.endsSkip) = false := hs
  have houtput := putBy_error B S.db v.turn.toMsg (69 :: encodeBody (B.errorBody e))
  refine ⟨S', .dispatch v.turn.kind v.turn.body :: (B.output v.mode.db v.turn.toMsg ++
    .put .error (69 :: encodeBody (B.errorBody e)) :: new), hfinish, ?_, ?_, ?_⟩
  · rw [hout, hdb]
    simp [Session.cleared, Session.handled]
  · refine books_failed (by rw [hmode]; exact hs) (by rw [hdb]; exact herror) ?_
    have hskip : ((S.handled B v.turn.toMsg).cleared B v.turn.toMsg e).ignoreTillSync =
        v.turn.kind.extended := by
      simp [Session.cleared, Session.handled, hleft]
    have howed : ((S.handled B v.turn.toMsg).cleared B v.turn.toMsg e).sendReadyForQuery =
        (S.sendReadyForQuery || !v.turn.kind.extended) := by
      simp [Session.cleared, Session.handled, hleft]
    rw [← howed, ← hskip]
    exact hbooks
  · rw [countP_isSync_dispatch, List.append_cons, List.countP_append, hdb, countP_isSync_putBy houtput,
      hsyncs, List.countP_cons, Nat.zero_add]
    simp

end Accounts

/-- A packet without Terminate that fails at most nine times accounts for all its visits. -/
theorem play_accounts (B : Backend σ) (more : ℕ → Bool) {p : ℕ} {ts : List Turn} {S : Session σ}
    (hb : b.sigsetjmp = true) (hkinds : ∀ t ∈ ts, t.kind ≠ .terminate)
    (hcanary : S.canaryEx + (visits b B more p ts S.mode).countP (·.Fails B) ≤ 9) :
    Accounts B ts (visits b B more p ts S.mode) S (S.play b B more p ts) := by
  induction ts generalizing p S with
  | nil => exact accounts_nil B S []
  | cons t ts ih =>
      have hk : t.kind ≠ .terminate := hkinds t (by simp)
      have hrest : ∀ t ∈ ts, t.kind ≠ .terminate := fun t ht => hkinds t (by simp [ht])
      -- the session that the turn leaves, and the turns after it
      have honward : ∀ (pipelining : Bool) (S₁ : Session σ),
          S₁.canaryEx + (following b B more p t ts pipelining S₁.mode).countP (·.Fails B) ≤ 9 →
          Accounts B ts (following b B more p t ts pipelining S₁.mode) S₁
            (S₁.onward b B more p t ts pipelining) := by
        intro pipelining S₁ hcanary₁
        rw [following] at hcanary₁ ⊢
        rw [Session.onward]
        split_ifs at hcanary₁ ⊢ with hgo
        · exact ih hrest hcanary₁
        · exact accounts_nil B S₁ ts
      rw [visits_cons] at hcanary ⊢
      have hmode : (visit more p t S.mode).mode = S.mode := rfl
      have hvisit : (visit more p t S.mode).before = more (p + t.toMsg.encode.length) := rfl
      by_cases hs : S.skips t.kind = true
      · have hnot : ¬(visit more p t S.mode).Fails B := fun h => by
          have hskips : S.mode.skips t.kind = true := hs
          exact absurd (hskips.symm.trans h.1) (by decide)
        rw [Visit.pipelining_of_not_fails hnot, Mode.step_of_skips B S t.toMsg hs] at hcanary ⊢
        rw [play_skipped b B _ p t ts S hs]
        refine (honward _ S ?_).skipped hmode hs
        rw [List.countP_cons] at hcanary
        exact le_trans (Nat.add_le_add_left (Nat.le_add_right _ _) _) hcanary
      have hnot : S.skips t.kind = false := by simpa using hs
      cases herror : (B.answer S.db t.toMsg).error with
      | none =>
          have hok : ¬(visit more p t S.mode).Fails B := fun h => by
            have hsome : (B.answer S.db t.toMsg).error.isSome = true := h.2
            rw [herror] at hsome
            cases hsome
          rw [Visit.pipelining_of_not_fails hok, hvisit] at hcanary ⊢
          rw [play_done b B _ p t ts S hnot hk herror]
          have hnext := S.mode_done B t.toMsg hnot herror (more (p + t.toMsg.encode.length))
            (more (p + t.encode.length))
          by_cases hgo : (more (p + t.toMsg.encode.length) && more (p + t.encode.length)) = true
          · obtain ⟨hbefore, hafter⟩ := Bool.and_eq_true_iff.mp hgo
            have hplay := honward (more (p + t.toMsg.encode.length))
              (S.done B t.toMsg (more (p + t.toMsg.encode.length)) (more (p + t.encode.length))) ?_
            · rw [hnext] at hplay
              rw [hafter] at hplay ⊢
              exact hplay.done (v := visit more p t S.mode) hmode herror hbefore
            · rw [hnext, Session.done, between_canaryEx]
              rw [List.countP_cons] at hcanary
              show S.canaryEx + _ ≤ 9
              omega
          · have hstop : (more (p + t.toMsg.encode.length) && more (p + t.encode.length)) = false := by
              simpa using hgo
            rw [following, Session.onward, hstop]
            exact accounts_last (v := visit more p t S.mode) hmode herror hstop ts
      | some e =>
          have hfails : (visit more p t S.mode).Fails B := ⟨hnot, by
            show (B.answer S.db t.toMsg).error.isSome = true
            rw [herror]
            rfl⟩
          have hnext := S.mode_cleared B t.toMsg hnot herror
          rw [Visit.pipelining_of_fails hfails, hvisit] at hcanary ⊢
          rw [List.countP_cons_of_pos (by simpa using hfails)] at hcanary
          cases hmore : more (p + t.encode.length) with
          | false =>
              rw [play_failed_last b B _ p t ts S hb hnot hk herror hmore, following, hmore, Bool.and_false]
              exact Accounts.failed (v := visit more p t S.mode) hmode hnot herror
                (accounts_nil B _ ts)
          | true =>
              rw [play_failed b B _ p t ts S hb hnot hk herror hmore (by omega)]
              have hplay := honward (more (p + t.toMsg.encode.length) || b.pipeliningRestored)
                { (S.handled B t.toMsg).cleared B t.toMsg e with canaryEx := S.canaryEx + 1 } ?_
              · have hmode₁ : ({ (S.handled B t.toMsg).cleared B t.toMsg e with
                    canaryEx := S.canaryEx + 1 } : Session σ).mode = S.mode.step B t.toMsg := hnext
                rw [hmode₁] at hplay
                exact Accounts.failed (v := visit more p t S.mode) hmode hnot herror hplay
              · have hmode₁ : ({ (S.handled B t.toMsg).cleared B t.toMsg e with
                    canaryEx := S.canaryEx + 1 } : Session σ).mode = S.mode.step B t.toMsg := hnext
                rw [hmode₁]
                show S.canaryEx + 1 + _ ≤ 9
                omega

/-! ## Calls -/

/-- The turns of a packet that the call reaches. -/
def State.visits (b : Build) (B : Backend σ) (t : Transport) (ts : List Turn) (s : State σ) :
    List (Visit σ) :=
  PgliteBuild.visits b B (t.more b (encodeTurns ts).length) 0 ts s.session.mode

/-- The call returns, every Sync of the packet is dispatched, and the reply has exactly one
ReadyForQuery for every message that is answered by it, behind its output. -/
def Accounted (b : Build) (B : Backend σ) (t : Transport) (ts : List Turn) (s : State σ) : Prop :=
  ∃ s' new, Calls b B (s.request t (encodeTurns ts)) (.ok () s') ∧
    s'.session.out = s.session.out ++ new ∧ replyItems new = expectedItems false new ∧
    new.countP Event.isSync = ts.countP fun t => t.kind = .sync

/-- The visited turns are those at the front of the packet. -/
theorem visits_turns (b : Build) (B : Backend σ) (more : ℕ → Bool) (p : ℕ) (ts : List Turn) (M : Mode σ) :
    (visits b B more p ts M).map Visit.turn = ts.take (visits b B more p ts M).length := by
  induction ts generalizing p M with
  | nil => rfl
  | cons t ts ih =>
      rw [visits_cons, List.map_cons, List.length_cons, List.take_succ_cons]
      congr 1
      rw [following]
      split_ifs
      · exact ih _ _
      · rfl

/-- All Syncs are dispatched exactly when no Sync is left behind. -/
theorem countP_visits_eq (b : Build) (B : Backend σ) (more : ℕ → Bool) (p : ℕ) (ts : List Turn) (M : Mode σ) :
    ((visits b B more p ts M).countP fun v => v.turn.kind = .sync) =
        (ts.countP fun t => t.kind = .sync) ↔
      ∀ t ∈ ts.drop (visits b B more p ts M).length, t.kind ≠ .sync := by
  have hcount : ((visits b B more p ts M).countP fun v => v.turn.kind = .sync) =
      ((ts.take (visits b B more p ts M).length).countP fun t => t.kind = .sync) := by
    rw [← visits_turns, List.countP_map]
    rfl
  have hsplit := congrArg (List.countP fun t : Turn => t.kind = .sync)
    (List.take_append_drop (visits b B more p ts M).length ts)
  rw [List.countP_append] at hsplit
  rw [hcount, ← hsplit, Nat.left_eq_add, List.countP_eq_zero]
  simp

/-- At most eight of the visited turns fail. -/
def AtMostEight (b : Build) (B : Backend σ) (t : Transport) (ts : List Turn) (s : State σ) : Prop :=
  (s.visits b B t ts).countP (·.Fails B) ≤ 8

/-- What a call puts and its books. -/
theorem call_accounts {s : State σ} {t : Transport} {ts : List Turn} (hb : b.sigsetjmp = true)
    (hquiet : QuietNotify B) (hidle : Idle B s) (hbatch : Batch B s ts) (hfew : AtMostEight b B t ts s) :
    ∃ s' new, Calls b B (s.request t (encodeTurns ts)) (.ok () s') ∧
      s'.session.out = s.session.out ++ new ∧
      (replyItems new = expectedItems false new ↔ (s.visits b B t ts).IsChain (Visit.Settles B)) ∧
      new.countP Event.isSync = (s.visits b B t ts).countP fun v => v.turn.kind = .sync := by
  have hcanary : s.session.opening.canaryEx = 0 := hidle.canary
  have hplay : Accounts B ts (s.visits b B t ts) s.session.opening (s.plays b B t ts) := by
    rw [State.plays]
    exact play_accounts B _ hb hbatch.kinds (by
      rw [hcanary, Nat.zero_add]
      exact hfew.trans (by decide))
  obtain ⟨S, new, hfinish, hout, hbooks, hsyncs⟩ := hplay
  have hcall := call_packet hidle hquiet t hbatch.nonempty hbatch.covers (b := b)
  rw [hfinish] at hcall
  obtain ⟨s', hcalls, hanswered⟩ := hcall
  refine ⟨s', new, hcalls, ?_, hbooks.even rfl, hsyncs⟩
  rw [hanswered.session]
  exact hout

/-- **ReadyForQuery is accounted for exactly when every failure is settled by the next message and
no Sync is left behind.** -/
theorem accounted_iff {s : State σ} {t : Transport} {ts : List Turn} (hb : b.sigsetjmp = true)
    (hquiet : QuietNotify B) (hidle : Idle B s) (hbatch : Batch B s ts) (hfew : AtMostEight b B t ts s) :
    Accounted b B t ts s ↔ (s.visits b B t ts).IsChain (Visit.Settles B) ∧
      ∀ u ∈ ts.drop (s.visits b B t ts).length, u.kind ≠ .sync := by
  obtain ⟨s', new, hcalls, hout, hitems, hsyncs⟩ := call_accounts hb hquiet hidle hbatch hfew
  have hleft : ((s.visits b B t ts).countP fun v => v.turn.kind = .sync) =
        (ts.countP fun u => u.kind = .sync) ↔
      ∀ u ∈ ts.drop (s.visits b B t ts).length, u.kind ≠ .sync := countP_visits_eq b B _ 0 ts _
  rw [← hitems, ← hleft]
  constructor
  · rintro ⟨s'', new', hcalls', hout', hitems', hcount⟩
    cases hcalls.unique hcalls'
    obtain rfl : new = new' := List.append_cancel_left (hout.symm.trans hout')
    exact ⟨hitems', hsyncs.symm.trans hcount⟩
  · rintro ⟨hitems', hcount⟩
    exact ⟨s', new, hcalls, hout, hitems', hsyncs.trans hcount⟩

/-- A Query that fails at the end of its packet. -/
theorem accounted_iff_query :
    Accounted Build.emscripten (Backend.failing []) .cma [Msg.query.turn] (State.waiting ()) :=
  (accounted_iff rfl (quietNotify_stateless _) (idle_waiting _ ()) (batch_failing [] 0)
    (by unfold AtMostEight; decide)).mpr ⟨List.isChain_singleton _, by decide⟩

/-- Behind two Queries that fail there is one ReadyForQuery only. -/
theorem not_accounted_queries :
    ¬Accounted Build.emscripten (Backend.failing []) .cma [Msg.query.turn, Msg.query.turn]
      (State.waiting ()) := by
  rintro ⟨s', new, hcalls, hout, hitems, -⟩
  obtain ⟨s'', new', hcalls', hout', hchain, -⟩ := call_accounts (t := .cma) (b := Build.emscripten) rfl
    (quietNotify_stateless _) (idle_waiting _ ()) (batch_failing [] 1) (by unfold AtMostEight; decide)
  cases hcalls.unique hcalls'
  obtain rfl : new = new' := List.append_cancel_left (hout.symm.trans hout')
  -- the second Query fails as well, and settles nothing
  have hsettles := List.IsChain.rel (hchain.mp hitems)
  have howes : Visit.Owes (Backend.failing []) (visit (Transport.more Build.emscripten .cma 12) 0
      Msg.query.turn ⟨(), false⟩) := ⟨⟨by decide, by decide⟩, rfl⟩
  exact (hsettles howes).1 ⟨by decide, by decide⟩

end PgliteBuild
