import Mathlib.Data.Int.Notation
import Mathlib.Data.List.DropRight
import Mathlib.Data.List.Infix
import Mathlib.Tactic.Common

/-! # String methods of Python

`find`, `split` and `rsplit` with a limit of one cut, and `strip`, on lists of characters. -/

namespace PyString

/-- A `str`. -/
abbrev Str := List Char

/-- The first place where `sub` occurs. -/
def findIdx (sub : Str) : Str → Option ℕ
  | [] => if sub.isPrefixOf [] then some 0 else none
  | c :: s => if sub.isPrefixOf (c :: s) then some 0 else (findIdx sub s).map Nat.succ

/-- `s.find(sub)`. -/
def find (s sub : Str) : ℤ :=
  match findIdx sub s with
  | some k => k
  | none => -1

/-- The two parts of `s.split(sep, 1)`, if `sep` occurs. -/
def splitOnce (sep : Str) : Str → Option (Str × Str)
  | [] => none
  | c :: s =>
      if sep.isPrefixOf (c :: s) then some ([], (c :: s).drop sep.length)
      else (splitOnce sep s).map fun r => (c :: r.1, r.2)

/-- The two parts of `s.rsplit(sep, 1)`, if `sep` occurs. -/
def rsplitOnce (sep : Str) : Str → Option (Str × Str)
  | [] => none
  | c :: s =>
      match rsplitOnce sep s with
      | some r => some (c :: r.1, r.2)
      | none => if sep.isPrefixOf (c :: s) then some ([], (c :: s).drop sep.length) else none

/-- `s.strip(…)`, for the characters that satisfy `p`. -/
def strip (p : Char → Bool) (s : Str) : Str := (s.dropWhile p).rdropWhile p

variable {sep sub s a b : Str} {c x y : Char} {p : Char → Bool}

/-! ## find -/

/-- A text is found if it is part of the other. -/
theorem findIdx_isSome : (findIdx sub s).isSome = true ↔ sub <:+: s := by
  induction s with
  | nil =>
      rw [findIdx]
      split_ifs with h
      · simpa using List.isPrefixOf_iff_prefix.mp h
      · rw [List.isPrefixOf_iff_prefix] at h
        simpa using h
  | cons c s ih =>
      rw [findIdx, List.infix_cons_iff]
      split_ifs with h
      · exact iff_of_true rfl (.inl (List.isPrefixOf_iff_prefix.mp h))
      · rw [List.isPrefixOf_iff_prefix] at h
        rw [Option.isSome_map, ih, or_iff_right h]

/-- A text is found at the front if the other begins with it. -/
theorem findIdx_eq_zero : findIdx sub s = some 0 ↔ sub <+: s := by
  cases s with
  | nil =>
      rw [findIdx, ← List.isPrefixOf_iff_prefix]
      split_ifs with h <;> simp [h]
  | cons c s =>
      rw [findIdx, ← List.isPrefixOf_iff_prefix]
      split_ifs with h <;> simp [h]

/-- `find` tells whether the string occurs. -/
theorem find_nonneg : 0 ≤ find s sub ↔ sub <:+: s := by
  rw [← findIdx_isSome, find]
  cases findIdx sub s with
  | none => simp
  | some k => simp

/-- `find` is positive where the string occurs, but not at the start. -/
theorem find_pos : 0 < find s sub ↔ sub <:+: s ∧ ¬sub <+: s := by
  rw [← findIdx_isSome, ← findIdx_eq_zero, find]
  cases findIdx sub s with
  | none => simp
  | some k => simp [Nat.pos_iff_ne_zero]

/-- A character is found if it is in the text. -/
theorem find_char_nonneg : 0 ≤ find s [c] ↔ c ∈ s := by
  rw [find_nonneg, List.singleton_infix_iff]

/-- A character that is not in the text is not found. -/
theorem not_find_char_pos (h : c ∉ s) : ¬0 < find s [c] := by
  rw [find_pos, List.singleton_infix_iff]
  exact fun hpos => h hpos.1

/-- A character behind another one is found behind it. -/
theorem find_char_pos (h : c ∈ s) (hne : x ≠ c) : 0 < find (x :: s) [c] := by
  rw [find_pos, List.singleton_infix_iff, List.cons_prefix_cons]
  exact ⟨List.mem_cons_of_mem x h, fun heq => hne heq.1.symm⟩

/-! ## split -/

/-- The string is cut at the first place where `x :: sep` occurs. -/
theorem splitOnce_append (h : x ∉ a) : splitOnce (x :: sep) (a ++ (x :: sep) ++ b) = some (a, b) := by
  induction a with
  | nil =>
      have hprefix : (x :: sep).isPrefixOf (x :: sep ++ b) = true :=
        List.isPrefixOf_iff_prefix.mpr (List.prefix_append _ _)
      rw [List.nil_append, List.cons_append, splitOnce, ← List.cons_append, if_pos hprefix, List.drop_left]
  | cons c a ih =>
      rw [List.mem_cons, not_or] at h
      have hprefix : ¬(x :: sep).isPrefixOf (c :: (a ++ (x :: sep) ++ b)) = true := by
        rw [List.isPrefixOf_iff_prefix, List.cons_prefix_cons]
        exact fun heq => h.1 heq.1
      rw [List.cons_append, List.cons_append, splitOnce, if_neg hprefix, ih h.2]
      rfl

/-- A string without a character of `sep` is not cut. -/
theorem rsplitOnce_eq_none (hy : y ∈ sep) (h : y ∉ s) : rsplitOnce sep s = none := by
  induction s with
  | nil => rfl
  | cons c s ih =>
      have hprefix : ¬sep.isPrefixOf (c :: s) = true := by
        rw [List.isPrefixOf_iff_prefix]
        exact fun hpre => h (hpre.subset hy)
      rw [rsplitOnce, ih (fun hs => h (List.mem_cons_of_mem c hs))]
      exact if_neg hprefix

/-- A text without the separator that does not begin with it either has no last one. -/
theorem rsplitOnce_cons_eq_none (h : rsplitOnce sep s = none) (hc : ¬sep <+: c :: s) :
    rsplitOnce sep (c :: s) = none := by
  rw [rsplitOnce, h]
  exact if_neg (fun hprefix => hc (List.isPrefixOf_iff_prefix.mp hprefix))

/-- The string is cut at the last place where `x :: sep` occurs. -/
theorem rsplitOnce_append (h : rsplitOnce (x :: sep) (sep ++ b) = none) :
    rsplitOnce (x :: sep) (a ++ (x :: sep) ++ b) = some (a, b) := by
  induction a with
  | nil =>
      have hprefix : (x :: sep).isPrefixOf (x :: sep ++ b) = true :=
        List.isPrefixOf_iff_prefix.mpr (List.prefix_append _ _)
      rw [List.nil_append, List.cons_append, rsplitOnce, h, ← List.cons_append]
      show (if _ then _ else _) = _
      rw [if_pos hprefix, List.drop_left]
  | cons c a ih =>
      rw [List.cons_append, List.cons_append, rsplitOnce, ih]

/-- A text is split at the last separator. -/
theorem rsplitOnce_char (h : c ∉ b) : rsplitOnce [c] (a ++ c :: b) = some (a, b) := by
  have hnone : rsplitOnce [c] ([] ++ b) = none := rsplitOnce_eq_none (List.mem_singleton_self c) h
  have hcut := rsplitOnce_append (a := a) hnone
  rwa [List.append_assoc] at hcut

/-- A character that occurs has a last place. -/
theorem exists_last (h : c ∈ s) : ∃ a b, s = a ++ c :: b ∧ c ∉ b := by
  obtain ⟨a, b, hrev, hnot⟩ := List.eq_append_cons_of_mem (List.mem_reverse.mpr h)
  refine ⟨b.reverse, a.reverse, ?_, fun hmem => hnot (List.mem_reverse.mp hmem)⟩
  have hs := congrArg List.reverse hrev
  simpa using hs

/-! ## strip -/

/-- Neither end has a character to strip. -/
def Trimmed (p : Char → Bool) (s : Str) : Prop :=
  (∀ c ∈ s.head?, ¬p c = true) ∧ ∀ c ∈ s.getLast?, ¬p c = true

/-- A text without characters to strip is trimmed. -/
theorem trimmed_of_forall (h : ∀ c ∈ s, ¬p c = true) : Trimmed p s :=
  ⟨fun c hc => h c (List.mem_of_mem_head? hc), fun c hc => h c (List.mem_of_mem_getLast? hc)⟩

/-- The two ends decide. -/
theorem trimmed_cons_append (hx : ¬p x = true) (hb : b ≠ []) (hlast : ∀ c ∈ b.getLast?, ¬p c = true) :
    Trimmed p (x :: a ++ b) := by
  refine ⟨fun c hc => ?_, fun c hc => ?_⟩
  · obtain rfl : x = c := Option.some.inj hc
    exact hx
  · rw [List.getLast?_append_of_ne_nil _ hb] at hc
    exact hlast c hc

/-- What is between characters to strip is what `strip` leaves. -/
theorem strip_append_append {m : Str} (ha : ∀ c ∈ a, p c = true) (hb : ∀ c ∈ b, p c = true) (hm : Trimmed p m) :
    strip p (a ++ m ++ b) = m := by
  rw [strip, List.append_assoc, List.dropWhile_append_of_pos ha]
  cases m with
  | nil =>
      rw [List.nil_append, List.dropWhile_eq_nil_iff.mpr hb, List.rdropWhile_nil]
  | cons x m =>
      have hx : ¬p x = true := hm.1 x rfl
      have hlast : (x :: m).reverse.dropWhile p = (x :: m).reverse := by
        rw [List.dropWhile_eq_self_iff]
        intro hl
        refine hm.2 _ ?_
        rw [List.getLast?_eq_head?_reverse, List.head?_eq_getElem?]
        exact List.getElem?_eq_getElem hl
      rw [List.cons_append, List.dropWhile_cons_of_neg hx, ← List.cons_append, List.rdropWhile,
        List.reverse_append,
        List.dropWhile_append_of_pos (fun c hc => hb c (List.mem_reverse.mp hc)), hlast, List.reverse_reverse]

/-- Nothing is stripped from a trimmed text. -/
theorem strip_eq_self (h : Trimmed p s) : strip p s = s := by
  have hstrip := strip_append_append (p := p) (a := []) (b := []) (m := s) (by simp) (by simp) h
  simpa using hstrip

/-- `strip` takes characters off both ends. -/
theorem exists_strip (p : Char → Bool) (s : Str) : ∃ a b, s = a ++ strip p s ++ b ∧ (∀ c ∈ a, p c = true) ∧
    (∀ c ∈ b, p c = true) ∧ Trimmed p (strip p s) := by
  refine ⟨s.takeWhile p, (s.dropWhile p).rtakeWhile p, ?_, fun c hc => List.mem_takeWhile_imp hc,
    fun c hc => List.mem_rtakeWhile_imp hc, fun c hc => ?_, fun c hc => ?_⟩
  · rw [strip, List.append_assoc, List.rdropWhile_append_rtakeWhile, List.takeWhile_append_dropWhile]
  · obtain ⟨t, ht⟩ : strip p s <+: s.dropWhile p := List.rdropWhile_prefix _ _
    have hhead : (s.dropWhile p).head? = some c := by
      rw [← ht, List.head?_append, Option.mem_def.mp hc]
      rfl
    have hnot := List.head?_dropWhile_not p s
    rw [hhead] at hnot
    simpa using hnot
  · have hne : strip p s ≠ [] := by
      intro hnil
      rw [hnil] at hc
      cases hc
    rw [Option.mem_def, List.getLast?_eq_some_getLast hne, Option.some.injEq] at hc
    exact hc ▸ List.rdropWhile_last_not p _ hne

/-- A stripped text is trimmed. -/
theorem trimmed_strip (p : Char → Bool) (s : Str) : Trimmed p (strip p s) := by
  obtain ⟨-, -, -, -, -, h⟩ := exists_strip p s
  exact h

/-- Characters to strip behind a string do not matter. -/
theorem strip_append_right (hb : ∀ c ∈ b, p c = true) : strip p (s ++ b) = strip p s := by
  obtain ⟨u, v, hs, hu, hv, htrimmed⟩ := exists_strip p s
  have hstrip := strip_append_append (p := p) (b := v ++ b) hu
    (fun c hc => (List.mem_append.mp hc).elim (hv c) (hb c)) htrimmed
  rwa [← List.append_assoc, ← hs] at hstrip

end PyString
