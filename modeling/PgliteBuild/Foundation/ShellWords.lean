import Mathlib.Data.List.Basic
import Mathlib.Tactic.Common

/-! # The words of a shell command line

How a POSIX shell takes a command line apart into words: blanks separate words, single quotes keep every character,
double quotes keep every character that is not special inside them, and a bare character stands for itself unless it
is special. `words` gives up where a special character would have to be interpreted. A text `Quotes` a word when it
stands for that word in every context; quoted texts compose, and a line of them reads as the words that they quote
(`words_line`). -/

namespace ShellWords

/-- Space and tab. -/
def isBlank (c : UInt8) : Bool := c == 32 || c == 9

/-- The bare characters that a shell may interpret: newline and `!#$%&()*;<=>?[\]^` with the grave accent and
`{|}~`. -/
def isSpecial (c : UInt8) : Bool :=
  [10, 33, 35, 36, 37, 38, 40, 41, 42, 59, 60, 61, 62, 63, 91, 92, 93, 94, 96, 123, 124, 125, 126].contains c

/-- A bare character that stands for itself. -/
def isPlain (c : UInt8) : Bool := !isBlank c && !isSpecial c && c != 39 && c != 34

/-- Where the reader is. -/
inductive Mode where
  /-- Between two words. -/
  | between
  /-- In a word, outside quotes. -/
  | bare
  /-- In single quotes. -/
  | single
  /-- In double quotes. -/
  | double
  deriving DecidableEq, Repr

/-- Read the rest of a line, with the word read so far. -/
def readWords : Mode → List UInt8 → List UInt8 → Option (List (List UInt8))
  | .between, _, [] => some []
  | .bare, w, [] => some [w]
  | .single, _, [] | .double, _, [] => none
  | .between, _, c :: cs =>
      if isBlank c then readWords .between [] cs
      else if c = 39 then readWords .single [] cs
      else if c = 34 then readWords .double [] cs
      else if isPlain c then readWords .bare [c] cs
      else none
  | .bare, w, c :: cs =>
      if isBlank c then (readWords .between [] cs).map (w :: ·)
      else if c = 39 then readWords .single w cs
      else if c = 34 then readWords .double w cs
      else if isPlain c then readWords .bare (w ++ [c]) cs
      else none
  | .single, w, c :: cs => if c = 39 then readWords .bare w cs else readWords .single (w ++ [c]) cs
  | .double, w, c :: cs =>
      if c = 34 then readWords .bare w cs
      else if c = 92 ∨ c = 36 ∨ c = 96 then none
      else readWords .double (w ++ [c]) cs

/-- The words of a line. -/
def words (line : List UInt8) : Option (List (List UInt8)) := readWords .between [] line

/-! ## Quoting -/

/-- The text `q` stands for `w`, wherever it is in a word. -/
def Quotes (q w : List UInt8) : Prop := ∀ acc rest, readWords .bare acc (q ++ rest) = readWords .bare (acc ++ w) rest

/-- The empty text quotes the empty word. -/
theorem quotes_nil : Quotes [] [] := by
  intro acc rest
  rw [List.nil_append, List.append_nil]

/-- Quotations in a row quote the words in a row. -/
theorem Quotes.append {q q' w w' : List UInt8} (h : Quotes q w) (h' : Quotes q' w') : Quotes (q ++ q') (w ++ w') := by
  intro acc rest
  rw [List.append_assoc, h, h', List.append_assoc]

/-- A plain character is read as itself. -/
theorem read_plain {c : UInt8} (hc : isPlain c = true) (acc cs : List UInt8) :
    readWords .bare acc (c :: cs) = readWords .bare (acc ++ [c]) cs := by
  obtain ⟨⟨⟨hblank, -⟩, hsingle⟩, hdouble⟩ : ((isBlank c = false ∧ isSpecial c = false) ∧ c ≠ 39) ∧ c ≠ 34 := by
    simpa [isPlain] using hc
  rw [readWords, if_neg (by simp [hblank]), if_neg hsingle, if_neg hdouble, if_pos hc]

/-- Characters that stand for themselves quote themselves. -/
theorem quotes_plain {w : List UInt8} (hw : ∀ c ∈ w, isPlain c = true) : Quotes w w := by
  induction w with
  | nil => exact quotes_nil
  | cons c w ih =>
      intro acc rest
      rw [List.cons_append, read_plain (hw c List.mem_cons_self), ih fun x hx => hw x (List.mem_cons_of_mem c hx),
        List.append_assoc, List.singleton_append]

/-- Where a word starts the reader goes on as in a word. -/
theorem read_between {c : UInt8} (hc : isBlank c = false) (acc cs : List UInt8) :
    readWords .between acc (c :: cs) = readWords .bare [] (c :: cs) := by
  have hnot : ¬isBlank c = true := by simp [hc]
  rw [readWords, readWords, if_neg hnot, if_neg hnot, List.nil_append]

/-- The text starts a word: it is not empty, and no blank comes first. -/
structure Starts (q : List UInt8) : Prop where
  ne_nil : q ≠ []
  head : ∀ c ∈ q.head?, isBlank c = false

/-- A quotation at the start of a word is read as the word. -/
theorem read_word {q w : List UInt8} (h : Quotes q w) (hq : Starts q) (acc rest : List UInt8) :
    readWords .between acc (q ++ rest) = readWords .bare w rest := by
  obtain ⟨c, q', rfl⟩ := List.exists_cons_of_ne_nil hq.ne_nil
  have hblank : isBlank c = false := hq.head c rfl
  rw [List.cons_append, read_between hblank, ← List.cons_append, h, List.nil_append]

/-! ## Lines -/

/-- The texts of a line, separated by spaces. -/
def line : List (List UInt8) → List UInt8
  | [] => []
  | [q] => q
  | q :: q' :: qs => q ++ 32 :: line (q' :: qs)

/-- A line is its first word, and each other word behind a space. -/
theorem line_cons (q : List UInt8) (qs : List (List UInt8)) : line (q :: qs) = q ++ qs.flatMap (32 :: ·) := by
  induction qs generalizing q with
  | nil => rw [line, List.flatMap_nil, List.append_nil]
  | cons q' qs ih => rw [line, ih, List.flatMap_cons, List.cons_append]

/-- **A line of quoted words reads as these words.** -/
theorem words_line {qs ws : List (List UInt8)} (h : List.Forall₂ (fun q w => Quotes q w ∧ Starts q) qs ws) :
    words (line qs) = some ws := by
  induction h with
  | nil => rfl
  | @cons q w qs ws hq htail ih =>
      cases htail with
      | nil =>
          have hword := read_word hq.1 hq.2 [] []
          rw [List.append_nil] at hword
          exact hword
      | cons hq' hqs =>
          rw [words] at ih ⊢
          rw [line, read_word hq.1 hq.2, readWords, if_pos (by decide), ih]
          rfl

end ShellWords
