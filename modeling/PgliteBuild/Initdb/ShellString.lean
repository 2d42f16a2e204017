import PgliteBuild.Foundation.CString
import PgliteBuild.Foundation.ShellWords
import Mathlib.Data.List.TakeWhile

/-! # Arguments of a shell command

`appendShellString` of `pgl_stubs.h`, which the embedded `initdb` uses to put an argument on a command line. A
string of safe characters is appended as it is, any other string in single quotes, with a single quote of its own in
double quotes; a newline or a carriage return is dropped and makes the call fail. The shell takes a command line of
such arguments apart into exactly these arguments, so no argument is read as a part of the command. -/

namespace PgliteBuild

open CStr ShellWords

/-! ## The code -/

/-- The characters of the `strspn` call. -/
def shellSafe : CString := ascii "abcdefghijklmnopqrstuvwxyzABCDEFGHIJKLMNOPQRSTUVWXYZ0123456789-_./:"

/-- The length that `strspn(str, accept)` answers. -/
def strspn (str accept : CString) : ℕ := (str.takeWhile (accept.contains ·)).length

/-- The loop of `appendShellStringNoError`: the buffer and `ok` behind the rest of the string. -/
def appendShellChars (buf : CString) (ok : Bool) : CString → CString × Bool
  | [] => (buf, ok)
  | c :: p =>
      if c = 10 ∨ c = 13 then appendShellChars buf false p
      else if c = 39 then appendShellChars (buf ++ ascii "'\"'\"'") ok p
      else appendShellChars (buf ++ [c]) ok p

/-- `appendShellStringNoError`: the buffer, and whether the string could be appended whole. -/
def appendShellStringNoError (buf str : CString) : CString × Bool :=
  if str ≠ [] ∧ strspn str shellSafe = str.length then (buf ++ str, true)
  else
    let (buf, ok) := appendShellChars (buf ++ [39]) true str
    (buf ++ [39], ok)

/-- What `appendShellString` prints on `stderr`. -/
def shellError (str : CString) : CString :=
  ascii "shell command argument contains a newline or carriage return: \"" ++ str ++ ascii "\"\n"

/-- `appendShellString`: the buffer, or the message with which the process exits. -/
def appendShellString (buf str : CString) : Except CString CString :=
  let (buf, ok) := appendShellStringNoError buf str
  if ok then .ok buf else .error (shellError str)

/-- A command line: its arguments one after the other, with a space before each but the first. -/
def appendShellStrings : CString → List CString → Except CString CString
  | buf, [] => .ok buf
  | buf, arg :: args => do
    let buf ← appendShellString (if buf = [] then buf else buf ++ [32]) arg
    appendShellStrings buf args

/-! ## One argument -/

/-- The string can be an argument: it contains neither a newline nor a carriage return. -/
def OneLine (str : CString) : Prop := 10 ∉ str ∧ 13 ∉ str

/-- What the loop appends for a string. -/
def shellChars (str : CString) : CString :=
  str.flatMap fun c => if c = 10 ∨ c = 13 then [] else if c = 39 then ascii "'\"'\"'" else [c]

/-- The loop appends the quoted characters, and it fails at a line break. -/
theorem appendShellChars_eq (buf : CString) (ok : Bool) (str : CString) :
    appendShellChars buf ok str = (buf ++ shellChars str, ok && str.all fun c => !decide (c = 10 ∨ c = 13)) := by
  induction str generalizing buf ok with
  | nil =>
      rw [appendShellChars, shellChars, List.flatMap_nil, List.append_nil, List.all_nil, Bool.and_true]
  | cons c p ih =>
      have hchars : shellChars (c :: p) =
          (if c = 10 ∨ c = 13 then [] else if c = 39 then ascii "'\"'\"'" else [c]) ++ shellChars p :=
        List.flatMap_cons
      rw [appendShellChars, hchars, List.all_cons]
      split_ifs with hline hquote
      · rw [ih, decide_eq_true hline, List.nil_append, Bool.not_true, Bool.false_and, Bool.and_false]
      · rw [ih, decide_eq_false hline, List.append_assoc, Bool.not_false, Bool.true_and]
      · rw [ih, decide_eq_false hline, List.append_assoc, Bool.not_false, Bool.true_and]

/-- The loop does not fail on one line. -/
theorem oneLine_iff (str : CString) : (str.all fun c => !decide (c = 10 ∨ c = 13)) = true ↔ OneLine str := by
  simp only [List.all_eq_true, Bool.not_eq_true', decide_eq_false_iff_not, not_or, OneLine]
  constructor
  · exact fun h => ⟨fun h10 => (h 10 h10).1 rfl, fun h13 => (h 13 h13).2 rfl⟩
  · rintro ⟨hnewline, hreturn⟩ c hc
    exact ⟨fun h => hnewline (h ▸ hc), fun h => hreturn (h ▸ hc)⟩

/-- A text is one line if it neither starts with a line break nor goes on behind one. -/
theorem oneLine_cons {c : UInt8} {p : CString} : OneLine (c :: p) ↔ ¬(c = 10 ∨ c = 13) ∧ OneLine p := by
  rw [← oneLine_iff, ← oneLine_iff, List.all_cons, Bool.and_eq_true, Bool.not_eq_true', decide_eq_false_iff_not]

/-- In single quotes, what the loop appends stands for the string. -/
theorem read_shellChars {str : CString} (h : OneLine str) (acc rest : CString) :
    readWords .single acc (shellChars str ++ rest) = readWords .single (acc ++ str) rest := by
  induction str generalizing acc with
  | nil => rw [shellChars, List.flatMap_nil, List.nil_append, List.append_nil]
  | cons c p ih =>
      obtain ⟨hline, hrest⟩ := oneLine_cons.mp h
      have hchars : shellChars (c :: p) = (if c = 39 then ascii "'\"'\"'" else [c]) ++ shellChars p := by
        rw [shellChars, List.flatMap_cons, if_neg hline]
        rfl
      rw [hchars, List.append_assoc, List.append_cons acc c p]
      split_ifs with hquote
      · -- out of the single quotes, into double quotes and back
        subst hquote
        exact ih hrest (acc ++ [39])
      · rw [List.singleton_append, readWords, if_neg hquote]
        exact ih hrest (acc ++ [c])

/-- A string in single quotes, with its own single quotes in double quotes, stands for itself. -/
theorem quotes_shellChars {str : CString} (h : OneLine str) : Quotes (39 :: shellChars str ++ [39]) str := by
  intro acc rest
  rw [List.append_assoc, List.cons_append, readWords, if_neg (by decide), if_pos rfl, read_shellChars h,
    List.singleton_append, readWords, if_pos rfl]

/-- A text that `strspn` spans has accepted characters only. -/
theorem strspn_length {str accept : CString} (h : strspn str accept = str.length) : ∀ c ∈ str, c ∈ accept := by
  have hall : str.takeWhile (accept.contains ·) = str :=
    (List.takeWhile_prefix _).eq_of_length h
  intro c hc
  rw [← hall] at hc
  exact List.contains_iff_mem.mp (List.mem_takeWhile_imp hc)

/-- The characters that need no quotes are read as themselves. -/
theorem isPlain_of_shellSafe : ∀ c ∈ shellSafe, isPlain c = true := by decide +kernel

/-- A word of plain characters begins a word. -/
theorem starts_of_isPlain {str : CString} (hne : str ≠ []) (h : ∀ c ∈ str, isPlain c = true) : Starts str := by
  refine ⟨hne, fun c hc => ?_⟩
  have hplain := h c (List.mem_of_mem_head? hc)
  simp only [isPlain, Bool.and_eq_true, Bool.not_eq_true'] at hplain
  exact hplain.1.1.1

/-- **`appendShellString` appends a quotation of its argument**, or it rejects the argument. -/
theorem appendShellString_spec (buf str : CString) :
    OneLine str ∧ (∃ q, appendShellString buf str = .ok (buf ++ q) ∧ Quotes q str ∧ Starts q) ∨
      ¬OneLine str ∧ appendShellString buf str = .error (shellError str) := by
  by_cases hsafe : str ≠ [] ∧ strspn str shellSafe = str.length
  · have hmem := strspn_length hsafe.2
    have hplain : ∀ c ∈ str, isPlain c = true := fun c hc => isPlain_of_shellSafe c (hmem c hc)
    have hline : OneLine str := ⟨fun h => absurd (hmem 10 h) (by decide +kernel),
      fun h => absurd (hmem 13 h) (by decide +kernel)⟩
    -- a safe string is its own quotation
    refine .inl ⟨hline, str, ?_, quotes_plain hplain, starts_of_isPlain hsafe.1 hplain⟩
    rw [appendShellString, appendShellStringNoError, if_pos hsafe]
    rfl
  · have hcode : appendShellStringNoError buf str =
        (buf ++ (39 :: shellChars str ++ [39]), str.all fun c => !decide (c = 10 ∨ c = 13)) := by
      rw [appendShellStringNoError, if_neg hsafe, appendShellChars_eq]
      simp
    rw [appendShellString, hcode]
    by_cases hline : OneLine str
    · refine .inl ⟨hline, 39 :: shellChars str ++ [39], ?_, quotes_shellChars hline, ?_⟩
      · exact if_pos ((oneLine_iff str).mpr hline)
      · refine ⟨by simp, fun c hc => ?_⟩
        obtain rfl : 39 = c := by simpa using hc
        decide
    · exact .inr ⟨hline, if_neg fun h => hline ((oneLine_iff str).mp h)⟩

/-! ## Command lines -/

/-- Behind the first argument every argument is appended with a space before it. -/
theorem appendShellStrings_spec {buf : CString} (hbuf : buf ≠ []) (args : List CString) :
    ((∀ arg ∈ args, OneLine arg) ∧ ∃ qs, List.Forall₂ (fun q arg => Quotes q arg ∧ Starts q) qs args ∧
      appendShellStrings buf args = .ok (buf ++ qs.flatMap (32 :: ·))) ∨
    ∃ arg ∈ args, ¬OneLine arg ∧ appendShellStrings buf args = .error (shellError arg) := by
  induction args generalizing buf with
  | nil => exact .inl ⟨by simp, [], .nil, by rw [List.flatMap_nil, List.append_nil]; rfl⟩
  | cons arg args ih =>
      rw [appendShellStrings, if_neg hbuf]
      rcases appendShellString_spec (buf ++ [32]) arg with ⟨hline, q, hok, hq, hstarts⟩ | ⟨hline, herror⟩
      · rw [hok]
        have hne : buf ++ [32] ++ q ≠ [] := by simp
        rcases ih hne with ⟨hlines, qs, hqs, htail⟩ | ⟨arg', harg', hline', htail⟩
        · refine .inl ⟨List.forall_mem_cons.mpr ⟨hline, hlines⟩, q :: qs, .cons ⟨hq, hstarts⟩ hqs, ?_⟩
          apply Eq.trans htail
          simp
        · exact .inr ⟨arg', List.mem_cons_of_mem arg harg', hline', htail⟩
      · rw [herror]
        exact .inr ⟨arg, List.mem_cons_self, hline, rfl⟩

/-- **A command line reads back as its arguments.** The shell takes it apart into exactly the arguments it was made
of, whatever characters they contain; it is not made at all if an argument has more than one line. -/
theorem shell_reads_arguments (args : List CString) :
    (∀ cmd, appendShellStrings [] args = .ok cmd → (∀ arg ∈ args, OneLine arg) ∧ words cmd = some args) ∧
      ∀ message, appendShellStrings [] args = .error message →
        ∃ arg ∈ args, ¬OneLine arg ∧ message = shellError arg := by
  cases args with
  | nil =>
      constructor
      · rintro cmd ⟨⟩
        exact ⟨by simp, rfl⟩
      · rintro message ⟨⟩
  | cons arg args =>
      rw [appendShellStrings, if_pos rfl]
      rcases appendShellString_spec [] arg with ⟨hline, q, hok, hq, hstarts⟩ | ⟨hline, herror⟩
      · rw [hok]
        rcases appendShellStrings_spec hstarts.ne_nil args with
          ⟨hlines, qs, hqs, htail⟩ | ⟨arg', harg', hline', htail⟩
        · -- the buffer is not empty behind the first argument, so a space comes before each other one
          have hcmd : appendShellStrings ([] ++ q) args = .ok (line (q :: qs)) := by rw [line_cons, ← htail]; rfl
          refine ⟨fun cmd h => ⟨List.forall_mem_cons.mpr ⟨hline, hlines⟩, ?_⟩, fun message h => ?_⟩
          · cases hcmd.symm.trans h
            exact words_line (.cons ⟨hq, hstarts⟩ hqs)
          · cases hcmd.symm.trans h
        · refine ⟨fun cmd h => ?_, fun message h => ?_⟩
          · cases htail.symm.trans h
          · cases htail.symm.trans h
            exact ⟨arg', List.mem_cons_of_mem arg harg', hline', rfl⟩
      · rw [herror]
        constructor
        · rintro cmd ⟨⟩
        · rintro message ⟨⟩
          exact ⟨arg, List.mem_cons_self, hline, rfl⟩

end PgliteBuild
