import PgliteBuild.Foundation.Splitting
import PgliteBuild.Initdb.InteractiveFile

/-! # The commands of a feed

In `-j` mode the commands of a feed are its pieces between newlines that follow `";\n"`
(`EndsCommand`), with what is left at the end of the file. `interactive_file` forms them one by one
and goes on behind the last one when an error starts it again, so that every command is seen once. -/

namespace PgliteBuild

open CStr Effect Splitting

variable {σ : Type} {B : Backend σ} {s : Feed σ}

/-! ## One command -/

/-- The buffer ends in `";\n"`. -/
def EndsCommand (inBuf : List UInt8) : Prop := [59, 10] <:+ inBuf

/-- The look-behind of the reader. -/
theorem endsCommand_iff (inBuf : List UInt8) :
    (1 < inBuf.length ∧ inBuf[inBuf.length - 1]? = some 10 ∧ inBuf[inBuf.length - 2]? = some 59) ↔
      EndsCommand inBuf := by
  constructor
  · rintro ⟨hlen, hlast, hbefore⟩
    rcases List.eq_nil_or_concat inBuf with rfl | ⟨p, x, rfl⟩
    · simp at hlen
    rcases List.eq_nil_or_concat p with rfl | ⟨q, y, rfl⟩
    · simp at hlen
    obtain rfl : x = 10 := by simpa using hlast
    obtain rfl : y = 59 := by simpa using hbefore
    exact ⟨q, by simp⟩
  · rintro ⟨q, rfl⟩
    simp

/-- The inner loop reads up to the next cut, or to the end of the feed. -/
theorem readCommand_spec (u : List UInt8) {inBuf : List UInt8} (h : Uncut EndsCommand 10 inBuf) :
    (readCommand true u inBuf = (inBuf ++ u, none, []) ∧ Uncut EndsCommand 10 (inBuf ++ u)) ∨
      ∃ c rest, readCommand true u inBuf = (c, some 10, rest) ∧ EndsCommand c ∧
        Uncut EndsCommand 10 c ∧ c ++ 10 :: rest = inBuf ++ u := by
  induction u generalizing inBuf with
  | nil =>
      rw [List.append_nil]
      exact .inl ⟨rfl, h⟩
  | cons c stream ih =>
      by_cases hcut : c = 10 ∧ EndsCommand inBuf
      · obtain ⟨rfl, hends⟩ := hcut
        refine .inr ⟨inBuf, stream, ?_, hends, h, rfl⟩
        rw [readCommand, if_pos rfl, if_pos rfl, if_pos ((endsCommand_iff inBuf).mpr hends)]
      · have hread : readCommand true (c :: stream) inBuf =
            readCommand true stream (inBuf ++ [c]) := by
          by_cases hc : c = 10
          · rw [readCommand, if_pos hc, if_pos rfl,
              if_neg fun hends => hcut ⟨hc, (endsCommand_iff inBuf).mp hends⟩]
          · rw [readCommand, if_neg hc]
        have hnext := ih (h.snoc hcut)
        rwa [← hread, List.append_assoc, List.singleton_append] at hnext

/-! ## What the reader needs -/

/-- The mode of a feed: `-j`, no skipping, and no message being read. -/
structure FeedMode (s : Feed σ) : Prop where
  semi : s.useSemiNewlineNewline = true
  sync : s.ignoreTillSync = false
  notReading : s.pqCommReadingMsg = false

/-- The reader runs, with `u` of the feed unread. -/
structure Reading (u : List UInt8) (s : Feed σ) : Prop extends FeedMode s where
  stream : s.singleModeFeed = some u
  plain : s.doingExtendedQueryMessage = false

/-- The two texts with which a command is skipped. -/
def skippedTexts : List CString :=
  [ascii "REVOKE ALL ON pg_largeobject FROM PUBLIC;",
    ascii "REVOKE CREATE,TEMPORARY ON DATABASE template1 FROM public;"]

/-- `startswith` tests for a prefix. -/
theorem startswith_iff (str pre : CString) : startswith str pre = true ↔ pre <+: str := by
  rw [startswith]
  split_ifs with hlong
  · refine iff_of_false id fun h => ?_
    have hle := h.length_le
    omega
  · exact strncmpEq_length str pre

/-- A command is skipped that begins with one of the two texts. -/
theorem sqlSkip_iff (command : CString) : sqlSkip command = true ↔ ∃ text ∈ skippedTexts, text <+: command := by
  simp [sqlSkip, skippedTexts, startswith_iff]

/-- What becomes of a command. -/
def FeedEvent.of (command : CString) : FeedEvent :=
  if ∃ text ∈ skippedTexts, text <+: command then .skipped command else .dispatch command

/-- **One command** is skipped or dispatched once, and the reader is where it was. -/
theorem feedCommand_spec {u c : List UInt8} (h : Reading u s) (hnul : 0 ∉ c) :
    wp (feedCommand B (c ++ [0]))
      (fun _ s' => Reading u s' ∧ s'.trace = s.trace ++ [FeedEvent.of c])
      (fun e s' => e = .error ∧ Reading u s' ∧ s'.trace = s.trace ++ [FeedEvent.of c]) s := by
  have hcstr : cstr (c ++ [0]) = c := cstr_append_nul hnul []
  rw [feedCommand, hcstr, FeedEvent.of]
  simp only [← sqlSkip_iff]
  by_cases hskip : sqlSkip c = true
  · rw [if_pos hskip, if_pos hskip, wp_modify]
    exact ⟨⟨⟨h.semi, h.sync, h.notReading⟩, h.stream, h.plain⟩, rfl⟩
  · have hlen : ¬c.length + 1 ≠ (c ++ [0]).length := by simp
    rw [if_neg hskip, if_neg hskip, wp_bind, wp_get, if_neg (by simp [h.sync]), simpleQuery, hcstr]
    simp only [if_neg hlen]
    rw [wp_bind, wp_modify, wp_bind, wp_get, wp_bind, wp_modify]
    cases (B.exec s.db .query (c ++ [0])).error with
    | none =>
        rw [wp_modify]
        exact ⟨⟨⟨h.semi, h.sync, h.notReading⟩, h.stream, h.plain⟩, rfl⟩
    | some e =>
        simp only
        rw [wp_bind, wp_modify, wp_throw]
        exact ⟨rfl, ⟨⟨h.semi, h.sync, h.notReading⟩, h.stream, h.plain⟩, rfl⟩

/-! ## The feed -/

/-- The history goes on with what became of these commands. -/
def Feed.Tells (s : Feed σ) (cs : List CString) (s' : Feed σ) : Prop :=
  s'.trace = s.trace ++ cs.map FeedEvent.of

/-- Commands that are told one after the other are told together. -/
theorem Feed.Tells.trans {s s' s'' : Feed σ} {cs cs' : List CString} (h : s.Tells cs s')
    (h' : s'.Tells cs' s'') : s.Tells (cs ++ cs') s'' := by
  rw [Feed.Tells, List.map_append, ← List.append_assoc, ← h]
  exact h'

/-- **The outer loop** forms the commands of the feed in order, up to its end or up to an error. -/
theorem interactiveFileLoop_spec {n : ℕ} {u : List UInt8} (hn : u.length < n) (hnul : 0 ∉ u)
    (h : Reading u s) :
    wp (interactiveFileLoop B n)
      (fun _ s' => Reading [] s' ∧ ∃ done, Formed EndsCommand 10 u done [] ∧ s.Tells done s')
      (fun e s' => e = .error ∧ ∃ rest done, Reading rest s' ∧ rest.length < u.length ∧ 0 ∉ rest ∧
        Formed EndsCommand 10 u done rest ∧ s.Tells done s') s := by
  induction n generalizing u s with
  | zero => omega
  | succ n ih =>
      rw [interactiveFileLoop, wp_bind, wp_get]
      simp only [h.stream]
      rw [wp_bind, wp_get, wp_bind, wp_modify]
      have hround := readCommand_spec u uncut_nil
      rw [← h.semi, List.nil_append] at hround
      rcases hround with ⟨hread, huncut⟩ | ⟨c, rest, hread, hends, huncut, hsplit⟩
      · -- the end of the feed
        simp only [hread, true_and, if_true]
        have hdone : Reading [] { s with singleModeFeed := some [] } :=
          ⟨⟨h.semi, h.sync, h.notReading⟩, rfl, h.plain⟩
        by_cases hnil : u = []
        · rw [if_pos hnil, wp_pure, hnil]
          exact ⟨hdone, [], formed_refl, (List.append_nil _).symm⟩
        · have hformed := formed_tail huncut hnil
          rw [if_neg hnil, wp_bind]
          refine wp_mono (feedCommand_spec hdone hnul) ?_ ?_
          · rintro _ s' ⟨hreading, htrace⟩
            exact ⟨hreading, [u], hformed, htrace⟩
          · rintro e s' ⟨rfl, hreading, htrace⟩
            exact ⟨rfl, [], [u], hreading, List.length_pos_iff.mpr hnil, List.not_mem_nil, hformed, htrace⟩
      · -- a command
        subst hsplit
        simp only [hread, reduceCtorEq, false_and, if_false]
        have hnulc : 0 ∉ c := fun hmem => hnul (List.mem_append_left _ hmem)
        have hnulrest : 0 ∉ rest := fun hmem =>
          hnul (List.mem_append_right _ (List.mem_cons_of_mem _ hmem))
        have hshort : rest.length < (c ++ 10 :: rest).length := by
          rw [List.length_append, List.length_cons]
          omega
        have hformed : Formed EndsCommand 10 (c ++ 10 :: rest) [c] rest := formed_cut hends huncut
        have hnext : Reading rest { s with singleModeFeed := some rest } :=
          ⟨⟨h.semi, h.sync, h.notReading⟩, rfl, h.plain⟩
        rw [wp_bind]
        refine wp_mono (feedCommand_spec hnext hnulc) ?_ ?_
        · rintro _ s₁ ⟨hreading, htrace⟩
          have htell : s.Tells [c] s₁ := htrace
          refine wp_mono (ih (by omega) hnulrest hreading) ?_ ?_
          · rintro _ s' ⟨hend, done, hrest, htrace'⟩
            exact ⟨hend, c :: done, hformed.trans hrest, htell.trans htrace'⟩
          · rintro e s' ⟨rfl, rest', done, hreading', hlen, hnul', hrest, htrace'⟩
            exact ⟨rfl, rest', c :: done, hreading', hlen.trans hshort, hnul', hformed.trans hrest,
              htell.trans htrace'⟩
        · rintro e s₁ ⟨rfl, hreading, htrace⟩
          exact ⟨rfl, rest, [c], hreading, hshort, hnulrest, hformed, htrace⟩

/-- An error starts the reader again in the mode it was in. -/
theorem singleUserHandler_spec {u : List UInt8} (h : Reading u s) :
    wp (singleUserHandler B) (fun _ s' => Reading u s' ∧ s'.trace = s.trace) (fun _ _ => False) s := by
  rw [singleUserHandler, wp_bind, wp_modify, wp_bind, wp_get, if_neg (by simp [h.plain]), wp_bind,
    wp_get, if_neg (by simp [h.notReading]), wp_bind, wp_get, if_pos (by simp [h.sync]), wp_modify]
  exact ⟨⟨⟨h.semi, h.sync, h.notReading⟩, h.stream, h.plain⟩, rfl⟩

/-- One start of the reader. -/
theorem singleUserMain_spec {u : List UInt8} (hnul : 0 ∉ u) (h : FeedMode s)
    (hstream : s.singleModeFeed = some u) :
    wp (singleUserMain B)
      (fun _ s' => FeedMode s' ∧ ∃ done, Formed EndsCommand 10 u done [] ∧ s.Tells done s')
      (fun e s' => e = .error ∧ ∃ rest done, Reading rest s' ∧ rest.length < u.length ∧ 0 ∉ rest ∧
        Formed EndsCommand 10 u done rest ∧ s.Tells done s') s := by
  have hstart : Reading u { s with sendReadyForQuery := true, doingExtendedQueryMessage := false } :=
    ⟨⟨h.semi, h.sync, h.notReading⟩, hstream, rfl⟩
  have hfuel : u.length < (s.singleModeFeed.getD []).length + 1 := by rw [hstream]; exact Nat.lt_succ_self _
  have hloop := interactiveFileLoop_spec (B := B) hfuel hnul hstart
  rw [singleUserMain, wp_bind, wp_get, if_pos (by simp [h.sync]), wp_bind, wp_modify, wp_bind,
    interactiveFile, wp_bind, wp_modify, wp_bind, wp_get]
  refine wp_mono hloop ?_ fun _ _ herror => herror
  rintro _ s' ⟨hend, done, hformed, htell⟩
  exact ⟨⟨hend.semi, hend.sync, hend.notReading⟩, done, hformed, htell⟩

/-- The restarts come to an end, since each error leaves less of the feed. -/
theorem singleUserLoop_spec {n : ℕ} {u : List UInt8} (hn : u.length < n) (hnul : 0 ∉ u)
    (h : FeedMode s) (hstream : s.singleModeFeed = some u) :
    ∃ s' done, singleUserLoop B n s = .ok () s' ∧ FeedMode s' ∧ Formed EndsCommand 10 u done [] ∧
      s.Tells done s' := by
  induction n generalizing u s with
  | zero => omega
  | succ n ih =>
      have hmain := singleUserMain_spec (B := B) hnul h hstream
      cases hrun : singleUserMain B s with
      | ok a s' =>
          obtain ⟨hmode, done, hformed, htell⟩ := hmain.ok hrun
          refine ⟨s', done, ?_, hmode, hformed, htell⟩
          simp only [singleUserLoop, hrun]
      | error e s₁ =>
          obtain ⟨rfl, rest, done, hreading, hlen, hnul', hformed, htell⟩ := hmain.error hrun
          obtain ⟨_, s₂, hhandler, hreading', htrace⟩ := (singleUserHandler_spec (B := B) hreading).returns
          obtain ⟨s', done', hloop, hmode, hformed', htell'⟩ :=
            ih (by omega) hnul' hreading'.toFeedMode hreading'.stream
          refine ⟨s', done ++ done', ?_, hmode, hformed.trans hformed', ?_⟩
          · simp only [singleUserLoop, hrun]
            exact (run_bind_ok hhandler).trans hloop
          · refine htell.trans ?_
            rw [Feed.Tells, ← htrace]
            exact htell'

/-- The script is run to its end, and the mode is as before. -/
theorem rePostgresSingleUserMain_spec (B : Backend σ) {feed : List UInt8} (hnul : 0 ∉ feed)
    (h : FeedMode s) :
    ∃ s' done, rePostgresSingleUserMain B (some feed) s = .ok () s' ∧ FeedMode s' ∧
      Formed EndsCommand 10 feed done [] ∧ s.Tells done s' := by
  obtain ⟨s', done, hrun, hend⟩ := singleUserLoop_spec (B := B)
    (s := { s with singleModeFeed := some feed }) (Nat.lt_succ_self feed.length) hnul
    ⟨h.semi, h.sync, h.notReading⟩ rfl
  exact ⟨s', done, (run_bind_ok (run_modify _ _)).trans hrun, hend⟩

/-- **The commands of a feed**: whatever commands raise errors, the reader comes to its end, having
formed the pieces of the only split of the feed, once each and in order; it has dispatched each of them
as one query, but for the two that it skips. -/
theorem feed_split (B : Backend σ) {feed : List UInt8} (hnul : 0 ∉ feed) (h : FeedMode s) :
    ∃ s' parts tail, rePostgresSingleUserMain B (some feed) s = .ok () s' ∧
      Splits EndsCommand 10 feed parts tail ∧
      (∀ parts' tail', Splits EndsCommand 10 feed parts' tail' → parts' = parts ∧ tail' = tail) ∧
      s'.trace = s.trace ++ (pieces parts tail).map FeedEvent.of := by
  obtain ⟨s', done, hrun, -, hformed, htell⟩ := rePostgresSingleUserMain_spec B hnul h
  obtain ⟨parts, tail, hsplit, rfl⟩ := hformed.splits
  exact ⟨s', parts, tail, hrun, hsplit, fun parts' tail' hsplit' => hsplit'.unique hsplit, htell⟩

/-- Every command fails, and each is seen once. -/
example : (match rePostgresSingleUserMain (.stateless fun _ _ => ([], some ⟨.other, "failed"⟩))
      (some (ascii "A;\n\nREVOKE ALL ON pg_largeobject FROM PUBLIC;\n\nB")) (.start ()) with
    | .ok _ s => s.trace
    | .error _ _ => []) =
    [.dispatch (ascii "A;\n"), .skipped (ascii "REVOKE ALL ON pg_largeobject FROM PUBLIC;\n"),
      .dispatch (ascii "B")] := by decide

/-- A feed of two commands, read with every command failing. -/
theorem feed_split_failing :
    ∃ s' parts tail,
      rePostgresSingleUserMain (.stateless fun _ _ => ([], some ⟨.other, "failed"⟩))
        (some (ascii "A;\n\nB")) (.start ()) = .ok () s' ∧
      Splits EndsCommand 10 (ascii "A;\n\nB") parts tail ∧
      (∀ parts' tail', Splits EndsCommand 10 (ascii "A;\n\nB") parts' tail' →
        parts' = parts ∧ tail' = tail) ∧
      s'.trace = [] ++ (pieces parts tail).map FeedEvent.of :=
  feed_split _ (by decide) ⟨rfl, rfl, rfl⟩

end PgliteBuild
