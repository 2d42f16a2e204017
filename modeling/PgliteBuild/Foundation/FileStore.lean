import Mathlib.Logic.Function.Basic
import Mathlib.Tactic.Common

/-! # Files behind directory entries

A directory entry leads to a file, and a descriptor keeps the file it was opened on: removing the entry does
not touch the file, and a file made later is a new one. -/

/-- The files of a system with the directory entries `F`. -/
structure Files (F : Type*) where
  entries : F → Option ℕ
  content : ℕ → List UInt8
  next : ℕ
  below : ∀ f i, entries f = some i → i < next

namespace Files

variable {F : Type*} [DecidableEq F] (fs : Files F)

/-- Open for `"w+"`: make the file, or make it empty. -/
def create (f : F) : Files F × ℕ :=
  match fs.entries f with
  | some i => ({ fs with content := Function.update fs.content i [] }, i)
  | none =>
      ({ entries := Function.update fs.entries f (some fs.next)
         content := Function.update fs.content fs.next []
         next := fs.next + 1
         below := by
          intro g i hg
          by_cases heq : g = f
          · rw [heq, Function.update_self, Option.some.injEq] at hg
            omega
          · rw [Function.update_of_ne heq] at hg
            exact Nat.lt_succ_of_lt (fs.below g i hg) }, fs.next)

/-- Remove a directory entry. -/
def remove (f : F) : Files F where
  entries := Function.update fs.entries f none
  content := fs.content
  next := fs.next
  below := by
    intro g i hg
    by_cases heq : g = f
    · rw [heq, Function.update_self] at hg
      cases hg
    · rw [Function.update_of_ne heq] at hg
      exact fs.below g i hg

/-- Write `bytes` to the file `i` from `offset` on; a gap is filled with zeros. -/
def write (i offset : ℕ) (bytes : List UInt8) : Files F :=
  let old := fs.content i
  let new := old.take offset ++ List.replicate (offset - old.length) 0 ++ bytes ++
    old.drop (offset + bytes.length)
  { fs with content := Function.update fs.content i new }

variable {fs} {f g : F} {i : ℕ}

/-- A file that is there is opened, and emptied. -/
theorem create_of_some (h : fs.entries f = some i) :
    fs.create f = ({ fs with content := Function.update fs.content i [] }, i) := by
  unfold create
  split
  · next j hj =>
      obtain rfl := Option.some.inj (hj.symm.trans h)
      rfl
  · next hnone => exact absurd (hnone.symm.trans h) (by simp)

/-- A file that is not there is a new one. -/
theorem create_of_none (h : fs.entries f = none) :
    (fs.create f).2 = fs.next ∧ (fs.create f).1.next = fs.next + 1 ∧
      (fs.create f).1.entries = Function.update fs.entries f (some fs.next) := by
  unfold create
  split
  · next j hj => exact absurd (hj.symm.trans h) (by simp)
  · exact ⟨rfl, rfl, rfl⟩

/-- After the call the entry leads to the file that was opened. -/
theorem entries_create_self : (fs.create f).1.entries f = some (fs.create f).2 := by
  cases h : fs.entries f with
  | some i => rw [create_of_some h, ← h]
  | none =>
      obtain ⟨hfile, -, hentries⟩ := create_of_none h
      rw [hentries, hfile, Function.update_self]

/-- Other entries stay. -/
theorem entries_create_of_ne (hne : g ≠ f) : (fs.create f).1.entries g = fs.entries g := by
  cases h : fs.entries f with
  | some i => rw [create_of_some h]
  | none => rw [(create_of_none h).2.2, Function.update_of_ne hne]

/-- Creating a file takes no number back. -/
theorem next_le_create : fs.next ≤ (fs.create f).1.next := by
  cases h : fs.entries f with
  | some i =>
      have hnext := congrArg (fun r => r.1.next) (create_of_some h)
      exact Nat.le_of_eq hnext.symm
  | none =>
      rw [(create_of_none h).2.1]
      omega

/-- The file opened is one of those that exist then. -/
theorem create_lt_next : (fs.create f).2 < (fs.create f).1.next :=
  (fs.create f).1.below f _ entries_create_self

/-- The file opened is the one that was there, or none that was there before. -/
theorem create_eq_or : fs.entries f = some (fs.create f).2 ∨ (fs.create f).2 = fs.next := by
  cases h : fs.entries f with
  | some i =>
      rw [create_of_some h]
      exact .inl rfl
  | none => exact .inr (create_of_none h).1

end Files
