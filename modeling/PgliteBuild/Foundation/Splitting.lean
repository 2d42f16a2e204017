import Mathlib.Data.List.Infix
import Mathlib.Tactic.Common

/-! # Splitting a stream behind finished pieces

A reader collects a stream into a buffer and cuts at a separator when the buffer is finished, as
`Ends` says of it; everywhere else the separator is a symbol like any other. `Splits` describes the
pieces it makes and what it is left with at the end of the stream. `Splits.unique` says that there is
only one such split. -/

namespace Splitting

variable {α : Type*} {Ends : List α → Prop} {x : α} {c text tail : List α} {parts : List (List α)}

/-- No finished buffer is followed by a separator inside `c`. -/
def Uncut (Ends : List α → Prop) (x : α) (c : List α) : Prop := ∀ p, Ends p → ¬p ++ [x] <+: c

/-- The empty text has no cut. -/
theorem uncut_nil : Uncut Ends x [] := by
  intro p _ hp
  simpa using hp.length_le

/-- Reading on where the reader does not cut. -/
theorem Uncut.snoc (h : Uncut Ends x c) {y : α} (hy : ¬(y = x ∧ Ends c)) : Uncut Ends x (c ++ [y]) := by
  intro p hends hp
  rcases List.prefix_concat_iff.mp hp with heq | hpre
  · obtain ⟨rfl, hxy⟩ := List.append_inj' heq rfl
    exact hy ⟨(List.singleton_inj.mp hxy).symm, hends⟩
  · exact h p hends hpre

/-- The pieces of a text, and what is left behind the last of them. -/
structure Splits (Ends : List α → Prop) (x : α) (text : List α) (parts : List (List α))
    (tail : List α) : Prop where
  join : parts.flatMap (· ++ [x]) ++ tail = text
  ended : ∀ c ∈ parts, Ends c ∧ Uncut Ends x c
  rest : Uncut Ends x tail

/-- A text without a cut is all tail. -/
theorem splits_tail (h : Uncut Ends x tail) : Splits Ends x tail [] tail :=
  ⟨rfl, (fun _ hc => by cases hc), h⟩

/-- One more piece in front. -/
theorem Splits.cons (hends : Ends c) (huncut : Uncut Ends x c) (h : Splits Ends x text parts tail) :
    Splits Ends x (c ++ x :: text) (c :: parts) tail := by
  refine ⟨?_, ?_, h.rest⟩
  · rw [List.flatMap_cons, List.append_assoc, h.join, List.append_assoc]
    rfl
  · intro c' hc'
    rcases List.mem_cons.mp hc' with rfl | hmem
    · exact ⟨hends, huncut⟩
    · exact h.ended c' hmem

/-- The first part and the rest join to the text. -/
theorem Splits.join_cons (h : Splits Ends x text (c :: parts) tail) :
    c ++ [x] ++ (parts.flatMap (· ++ [x]) ++ tail) = text := by
  rw [← h.join, List.flatMap_cons, List.append_assoc (c ++ [x])]

/-- Two cuts at the head of one text are one. -/
theorem cut_unique {c' u u' : List α} (hends : Ends c) (huncut : Uncut Ends x c) (hends' : Ends c')
    (huncut' : Uncut Ends x c') (h : c ++ [x] ++ u = c' ++ [x] ++ u') : c = c' ∧ u = u' := by
  have hpre : c ++ [x] <+: c' ++ [x] ++ u' := ⟨u, h⟩
  have hpre' : c' ++ [x] <+: c' ++ [x] ++ u' := ⟨u', rfl⟩
  have heq : c = c' := by
    rcases List.prefix_or_prefix_of_prefix hpre hpre' with hle | hle
    · rcases List.prefix_concat_iff.mp hle with heq | hshort
      · exact List.append_cancel_right heq
      · exact absurd hshort (huncut' c hends)
    · rcases List.prefix_concat_iff.mp hle with heq | hshort
      · exact (List.append_cancel_right heq).symm
      · exact absurd hshort (huncut c' hends')
  subst heq
  exact ⟨rfl, List.append_cancel_left h⟩

/-- **The split of a text is unique.** -/
theorem Splits.unique {parts' : List (List α)} {tail' : List α} (h : Splits Ends x text parts tail)
    (h' : Splits Ends x text parts' tail') : parts = parts' ∧ tail = tail' := by
  induction parts generalizing text parts' with
  | nil =>
      cases parts' with
      | nil => exact ⟨rfl, h.join.trans h'.join.symm⟩
      | cons c' parts' =>
          -- the tail of the first split would hold a cut
          have hcut : c' ++ [x] <+: tail := ⟨_, h'.join_cons.trans h.join.symm⟩
          exact absurd hcut (h.rest c' (h'.ended c' List.mem_cons_self).1)
  | cons c parts ih =>
      obtain ⟨hends, huncut⟩ := h.ended c List.mem_cons_self
      cases parts' with
      | nil =>
          have hcut : c ++ [x] <+: tail' := ⟨_, h.join_cons.trans h'.join.symm⟩
          exact absurd hcut (h'.rest c hends)
      | cons c' parts' =>
          obtain ⟨hends', huncut'⟩ := h'.ended c' List.mem_cons_self
          obtain ⟨rfl, hrest⟩ := cut_unique hends huncut hends' huncut'
            (h.join_cons.trans h'.join_cons.symm)
          have hparts : Splits Ends x (parts'.flatMap (· ++ [x]) ++ tail') parts tail :=
            ⟨hrest, fun c hc => h.ended c (List.mem_cons_of_mem _ hc), h.rest⟩
          have hparts' : Splits Ends x (parts'.flatMap (· ++ [x]) ++ tail') parts' tail' :=
            ⟨rfl, fun c hc => h'.ended c (List.mem_cons_of_mem _ hc), h'.rest⟩
          obtain ⟨rfl, rfl⟩ := ih hparts hparts'
          exact ⟨rfl, rfl⟩

/-- Reading one more symbol, where the reader does not cut. -/
theorem Splits.snoc (h : Splits Ends x text parts tail) {y : α} (hy : ¬(y = x ∧ Ends tail)) :
    Splits Ends x (text ++ [y]) parts (tail ++ [y]) := by
  refine ⟨?_, h.ended, h.rest.snoc hy⟩
  rw [← List.append_assoc, h.join]

/-- A separator ends a finished tail, and the reader goes on with the text behind it. -/
theorem Splits.append {text' tail' : List α} {parts' : List (List α)} (h : Splits Ends x text parts tail)
    (hends : Ends tail) (h' : Splits Ends x text' parts' tail') :
    Splits Ends x (text ++ x :: text') (parts ++ tail :: parts') tail' := by
  refine ⟨?_, ?_, h'.rest⟩
  · rw [← h.join, ← h'.join]
    simp
  · intro c hc
    rcases List.mem_append.mp hc with hmem | hmem
    · exact h.ended c hmem
    · rcases List.mem_cons.mp hmem with rfl | hmem
      · exact ⟨hends, h.rest⟩
      · exact h'.ended c hmem

/-- What is left of one text is read as the beginning of the next. -/
theorem Splits.extend {text' tail' : List α} {parts' : List (List α)} (h : Splits Ends x text parts tail)
    (h' : Splits Ends x (tail ++ text') parts' tail') :
    Splits Ends x (text ++ text') (parts ++ parts') tail' := by
  refine ⟨?_, ?_, h'.rest⟩
  · rw [List.flatMap_append, List.append_assoc, h'.join, ← List.append_assoc, h.join]
  · intro c hc
    rcases List.mem_append.mp hc with hmem | hmem
    · exact h.ended c hmem
    · exact h'.ended c hmem

/-- **Every text has a split.** -/
theorem exists_splits (Ends : List α → Prop) (x : α) (text : List α) :
    ∃ parts tail, Splits Ends x text parts tail := by
  induction text using List.reverseRecOn with
  | nil => exact ⟨[], [], splits_tail uncut_nil⟩
  | append_singleton text y ih =>
      obtain ⟨parts, tail, h⟩ := ih
      by_cases hcut : y = x ∧ Ends tail
      · obtain ⟨rfl, hends⟩ := hcut
        exact ⟨_, _, h.append hends (splits_tail uncut_nil)⟩
      · exact ⟨_, _, h.snoc hcut⟩

/-- The pieces with what is left behind them, if anything is. -/
def pieces (parts : List (List α)) (tail : List α) : List (List α) :=
  parts ++ if tail.isEmpty then [] else [tail]

/-- The first piece is the first part. -/
theorem pieces_cons (c : List α) (parts : List (List α)) (tail : List α) :
    pieces (c :: parts) tail = c :: pieces parts tail := rfl

/-! ## Splitting step by step -/

/-- The pieces `done` lie between a text and the rest of it. -/
def Formed (Ends : List α → Prop) (x : α) (text : List α) (done : List (List α)) (rest : List α) :
    Prop :=
  ∀ parts tail, Splits Ends x rest parts tail →
    ∃ parts' tail', Splits Ends x text parts' tail' ∧ pieces parts' tail' = done ++ pieces parts tail

variable {done done' : List (List α)} {rest rest' : List α}

/-- Nothing is formed before the first piece. -/
theorem formed_refl : Formed Ends x text [] text := fun parts tail h => ⟨parts, tail, h, rfl⟩

/-- Pieces that are formed one after the other are formed together. -/
theorem Formed.trans (h : Formed Ends x text done rest) (h' : Formed Ends x rest done' rest') :
    Formed Ends x text (done ++ done') rest' := by
  intro parts tail hsplit
  obtain ⟨parts₁, tail₁, hsplit₁, hpieces₁⟩ := h' parts tail hsplit
  obtain ⟨parts₂, tail₂, hsplit₂, hpieces₂⟩ := h parts₁ tail₁ hsplit₁
  refine ⟨parts₂, tail₂, hsplit₂, ?_⟩
  rw [hpieces₂, hpieces₁, List.append_assoc]

/-- A cut forms one piece. -/
theorem formed_cut (hends : Ends c) (huncut : Uncut Ends x c) :
    Formed Ends x (c ++ x :: rest) [c] rest := fun parts tail h =>
  ⟨c :: parts, tail, h.cons hends huncut, pieces_cons c parts tail⟩

/-- The end of the text forms the last piece. -/
theorem formed_tail (huncut : Uncut Ends x tail) (hne : tail ≠ []) :
    Formed Ends x tail [tail] [] := by
  intro parts tail' h
  obtain ⟨rfl, rfl⟩ := h.unique (splits_tail uncut_nil)
  refine ⟨[], tail, splits_tail huncut, ?_⟩
  cases tail with
  | nil => exact absurd rfl hne
  | cons y ys => rfl

/-- At the end of the text the pieces formed are those of its split. -/
theorem Formed.splits (h : Formed Ends x text done []) :
    ∃ parts tail, Splits Ends x text parts tail ∧ pieces parts tail = done := by
  obtain ⟨parts, tail, hsplit, hpieces⟩ := h [] [] (splits_tail uncut_nil)
  exact ⟨parts, tail, hsplit, hpieces.trans (List.append_nil done)⟩

end Splitting
