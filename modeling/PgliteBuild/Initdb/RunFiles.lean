import PgliteBuild.Initdb.Lifecycle

/-! # Scripts of a new database

`initdb` writes single commands into its pipe, and copies whole files there: `setup_run_file` puts the lines
of a file, and two newlines behind them. The first `pgl_backend` reads the pipe back, and `interactive_file`
knows nothing of what it is made of. As long as every file ends in `";\n"`, its commands are still its own:
none reaches into what is written behind the file (`creation_runs_files`). -/

namespace PgliteBuild

open CStr Splitting

variable {σ : Type}

/-! ## The pipe -/

/-- `PG_CMD_PUTS`. -/
def pgCmdPuts (cmdfd line : List UInt8) : List UInt8 := cmdfd ++ line

/-- `setup_run_file`, for a file of these lines. -/
def setupRunFile (cmdfd : List UInt8) (lines : List CString) : List UInt8 :=
  pgCmdPuts (lines.foldl pgCmdPuts cmdfd) [10, 10]

/-- What the post-bootstrap steps of `initdb` write. -/
inductive PipeWrite where
  | puts (line : CString)
  | runFile (lines : List CString)
  deriving DecidableEq, Repr

/-- One write behind what `cmdfd` holds. -/
def PipeWrite.write (cmdfd : List UInt8) : PipeWrite → List UInt8
  | .puts line => pgCmdPuts cmdfd line
  | .runFile lines => setupRunFile cmdfd lines

/-- A file that ends in `";\n"`; a single line may be anything. -/
def PipeWrite.Closed : PipeWrite → Prop
  | .puts _ => True
  | .runFile lines => EndsCommand lines.flatten

/-- The lines of a file are written one after the other, with two newlines behind them. -/
theorem setupRunFile_eq (cmdfd : List UInt8) (lines : List CString) :
    setupRunFile cmdfd lines = cmdfd ++ lines.flatten ++ 10 :: [10] := by
  unfold setupRunFile pgCmdPuts
  congr 1
  induction lines generalizing cmdfd with
  | nil => exact (List.append_nil cmdfd).symm
  | cons line lines ih =>
      rw [List.foldl_cons, ih, List.flatten_cons, List.append_assoc]

/-! ## The commands of a file -/

/-- The commands that the reader forms of what was written, where `lead` is what it has in its buffer. A line
is read on from there. A file is split as it is, and leaves the second newline of `setup_run_file` in the
buffer. At the end of the pipe what is left is a command too. -/
def PipeCommands : List UInt8 → List PipeWrite → List CString → Prop
  | lead, [], commands => commands = pieces [] lead
  | lead, .puts line :: writes, commands =>
      ∃ parts tail commands', Splits EndsCommand 10 (lead ++ line) parts tail ∧
        PipeCommands tail writes commands' ∧ commands = parts ++ commands'
  | lead, .runFile lines :: writes, commands =>
      ∃ parts tail commands', Splits EndsCommand 10 (lead ++ lines.flatten) parts tail ∧
        PipeCommands [10] writes commands' ∧ commands = pieces parts tail ++ commands'

/-- What ends a command ends it behind any text. -/
theorem endsCommand_append {text : List UInt8} (lead : List UInt8) (h : EndsCommand text) :
    EndsCommand (lead ++ text) := h.trans (List.suffix_append lead text)

/-- What is left of a text that ends in `";\n"` is a command. -/
theorem endsCommand_tail {text tail : List UInt8} {parts : List (List UInt8)} (h : EndsCommand text)
    (hsplit : Splits EndsCommand 10 text parts tail) : EndsCommand tail := by
  obtain ⟨before, rfl⟩ := h
  obtain ⟨parts', tail', hbefore⟩ := exists_splits EndsCommand 10 before
  have hsemicolon := hbefore.snoc (y := 59) fun hcut => by cases hcut.1
  have hnewline : ¬((10 : UInt8) = 10 ∧ EndsCommand (tail' ++ [59])) := by
    rintro ⟨-, hends⟩
    obtain ⟨p, hp⟩ := hends
    have hlast := congrArg List.getLast? hp
    simp at hlast
  have hwhole := hsemicolon.snoc hnewline
  rw [List.append_assoc, List.append_assoc] at hwhole
  obtain ⟨-, rfl⟩ := hsplit.unique hwhole
  exact List.suffix_append tail' _

/-- A single newline is no cut. -/
theorem splits_newline : Splits EndsCommand 10 [10] [] [10] := by
  apply splits_tail
  apply uncut_nil.snoc (y := 10)
  rintro ⟨-, hends⟩
  exact absurd hends.length_le (by decide)

/-- A tail that ends a command is the last piece. -/
theorem pieces_of_endsCommand {tail : List UInt8} (parts : List (List UInt8)) (h : EndsCommand tail) :
    pieces parts tail = parts ++ [tail] := by
  obtain ⟨before, rfl⟩ := h
  unfold pieces
  rw [if_neg (by simp)]

/-- **The commands in the pipe** are those of its lines and files. -/
theorem exists_pipeCommands {writes : List PipeWrite} (hclosed : ∀ w ∈ writes, w.Closed)
    {cmdfd lead : List UInt8} {parts : List (List UInt8)} (h : Splits EndsCommand 10 cmdfd parts lead) :
    ∃ parts' tail commands, Splits EndsCommand 10 (writes.foldl PipeWrite.write cmdfd) parts' tail ∧
      PipeCommands lead writes commands ∧ pieces parts' tail = parts ++ commands := by
  induction writes generalizing cmdfd lead parts with
  | nil => exact ⟨parts, lead, pieces [] lead, h, rfl, rfl⟩
  | cons w writes ih =>
      have hrest := fun w' hmem => hclosed w' (List.mem_cons_of_mem w hmem)
      cases w with
      | puts line =>
          obtain ⟨own, tail, hown⟩ := exists_splits EndsCommand 10 (lead ++ line)
          obtain ⟨parts', tail', commands, hsplit, hcommands, hpieces⟩ := ih hrest (h.extend hown)
          refine ⟨parts', tail', own ++ commands, hsplit, ⟨own, tail, commands, hown, hcommands, rfl⟩, ?_⟩
          rw [hpieces, List.append_assoc]
      | runFile lines =>
          obtain ⟨own, tail, hown⟩ := exists_splits EndsCommand 10 (lead ++ lines.flatten)
          have hends : EndsCommand lines.flatten := hclosed _ List.mem_cons_self
          have htail : EndsCommand tail := endsCommand_tail (endsCommand_append lead hends) hown
          -- the first of the two newlines ends the last command of the file
          have hfile : Splits EndsCommand 10 (setupRunFile cmdfd lines) (parts ++ own ++ [tail]) [10] := by
            rw [setupRunFile_eq]
            exact (h.extend hown).append htail splits_newline
          obtain ⟨parts', tail', commands, hsplit, hcommands, hpieces⟩ := ih hrest hfile
          refine ⟨parts', tail', pieces own tail ++ commands, hsplit,
            ⟨own, tail, commands, hown, hcommands, rfl⟩, ?_⟩
          rw [hpieces, pieces_of_endsCommand own htail, ← List.append_assoc, ← List.append_assoc]

/-! ## A new database -/

/-- The first `pgl_backend` reads the pipe to its end, and tells of the commands it forms once and in order. -/
theorem lives_feed (M : Scripts σ) (B : Backend σ) (db : σ) :
    ∃ t parts tail, lives M B [.initdb, .backend] (.boot db) = some t ∧
      Splits EndsCommand 10 M.single parts tail ∧ t.feed.trace = (pieces parts tail).map FeedEvent.of := by
  have hmode : FeedMode { (pglInitdb M (.boot db)).feed with useSemiNewlineNewline := true } := ⟨rfl, rfl, rfl⟩
  obtain ⟨feed, done, hrun, -, hformed, htell⟩ := rePostgresSingleUserMain_spec B M.single_nul hmode
  -- the second file that `pgl_popen` hands out is the feed of the backend
  have hbackend : lives M B [.initdb, .backend] (.boot db) =
      some { pglInitdb M (.boot db) with feed := feed, log := [.created, .scriptRun] } := by
    have hpipe : (pglInitdb M (.boot db)).idbPipeSingle = some M.single := rfl
    rw [← hpipe] at hrun
    have hcalled : ¬(pglInitdb M (.boot db)).pglIdbStatus &&& idbCalled = 0 := by
      show ¬((0 ||| idbFailed) ||| idbCalled) &&& idbOk &&& idbCalled = 0
      decide
    have hasync : (pglInitdb M (.boot db)).asyncRestart = true := rfl
    simp only [lives, pglBackend, if_neg hcalled, hasync, if_true, hrun]
    rfl
  obtain ⟨parts, tail, hsplit, hpieces⟩ := hformed.splits
  exact ⟨_, parts, tail, hbackend, hsplit, hpieces ▸ htell⟩

/-- **The creation of a database** reads what `initdb` wrote to its end: whatever the lines and files are and
whatever commands fail, each command is seen once and in order. Where every file ends in `";\n"`, the commands
of a file are those of the file. -/
theorem creation_runs_files (M : Scripts σ) (B : Backend σ) (db : σ) {writes : List PipeWrite}
    (hsingle : M.single = writes.foldl PipeWrite.write []) :
    ∃ t commands, lives M B [.initdb, .backend] (.boot db) = some t ∧
      (∃ parts tail, Splits EndsCommand 10 (writes.foldl PipeWrite.write []) parts tail ∧
        commands = pieces parts tail) ∧
      t.feed.trace = commands.map FeedEvent.of ∧
      ((∀ w ∈ writes, w.Closed) → PipeCommands [] writes commands) := by
  obtain ⟨t, parts, tail, hlives, hsplit, htell⟩ := lives_feed M B db
  rw [hsingle] at hsplit
  refine ⟨t, pieces parts tail, hlives, ⟨parts, tail, hsplit, rfl⟩, htell, fun hclosed => ?_⟩
  obtain ⟨parts', tail', commands, hsplit', hcommands, hpieces⟩ :=
    exists_pipeCommands hclosed (splits_tail (uncut_nil : Uncut EndsCommand 10 []))
  -- the pipe is split in one way only
  obtain ⟨rfl, rfl⟩ := hsplit.unique hsplit'
  obtain rfl : pieces parts tail = commands := hpieces
  exact hcommands

/-- A command of its own, and a file of two. -/
def twoWrites : List PipeWrite :=
  [.puts (ascii "ANALYZE;\n\n"),
    .runFile [ascii "CREATE VIEW a AS\n", ascii "SELECT 1;\n", ascii "\n", ascii "GRANT SELECT ON a TO b;\n"]]

/-- A database made of `twoWrites`. -/
def runsTwoWrites : Scripts Unit where
  boot := []
  single := twoWrites.foldl PipeWrite.write []
  bootstrap _ _ := ()
  single_nul := by decide +kernel

/-- The file of `twoWrites` ends its last command. -/
theorem closed_twoWrites : ∀ w ∈ twoWrites, w.Closed := by
  intro w hw
  obtain rfl | rfl : w = _ ∨ w = _ := by simpa [twoWrites] using hw
  · trivial
  · unfold PipeWrite.Closed EndsCommand
    decide +kernel

/-- The database made of `twoWrites` sees its commands as the line and the file have them. -/
theorem creation_runs_twoWrites :
    ∃ t commands, lives runsTwoWrites Backend.silent [.initdb, .backend] (.boot ()) = some t ∧
      t.feed.trace = commands.map FeedEvent.of ∧ PipeCommands [] twoWrites commands := by
  have hsingle : runsTwoWrites.single = twoWrites.foldl PipeWrite.write [] := rfl
  obtain ⟨t, commands, hlives, -, htell, hcommands⟩ := creation_runs_files runsTwoWrites Backend.silent () hsingle
  exact ⟨t, commands, hlives, htell, hcommands closed_twoWrites⟩

end PgliteBuild
