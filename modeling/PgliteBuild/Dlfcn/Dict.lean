import PgliteBuild.Foundation.CString

/-! # The `dict` helper of `dlfcn`

A growing array of keys and values, searched from the front. Every access to the array is checked
against the cells that were allocated: a function answers `none` where the code would read or write
outside them, or read a cell that was never written. -/

namespace PgliteBuild

open CStr

/-- `dict_entry_s`. -/
structure DictEntry where
  key : CString
  value : ℤ
  deriving DecidableEq, Repr

/-- `dict_s`: `entry` is the allocated array, with `none` for a cell never written. -/
structure Dict where
  len : ℕ
  cap : ℕ
  entry : List (Option DictEntry)
  deriving DecidableEq, Repr

/-- The entry in cell `i`, when that cell is allocated and written. -/
def Dict.entry? (dict : Dict) (i : ℕ) : Option DictEntry := dict.entry[i]?.join

/-- The loop of `dict_find_index` from cell `i` on, with `n` cells to go. -/
def dictFindIndexLoop (dict : Dict) (key : CString) : ℕ → ℕ → Option ℤ
  | 0, _ => some (-1)
  | n + 1, i => do
      let e ← dict.entry? i
      if e.key = key then some i else dictFindIndexLoop dict key n (i + 1)

/-- `dict_find_index`. -/
def dictFindIndex (dict : Dict) (key : CString) : Option ℤ := dictFindIndexLoop dict key dict.len 0

/-- `dict_find`. -/
def dictFind (dict : Dict) (key : CString) (dflt : ℤ) : Option ℤ := do
  let idx ← dictFindIndex dict key
  if idx = -1 then some dflt
  else do
    let e ← dict.entry? idx.toNat
    some e.value

/-- The allocated cells with cell `i` written, when that cell is allocated. -/
def Dict.write (dict : Dict) (i : ℕ) (e : DictEntry) : Option Dict :=
  if i < dict.entry.length then some { dict with entry := dict.entry.set i (some e) } else none

/-- `realloc` to `cap` cells: those that were there are kept. -/
def reallocEntry (entry : List (Option DictEntry)) (cap : ℕ) : List (Option DictEntry) :=
  entry.take cap ++ List.replicate (cap - entry.length) none

/-- `dict_add`. -/
def dictAdd (dict : Dict) (key : CString) (value : ℤ) : Option Dict := do
  let idx ← dictFindIndex dict key
  if idx ≠ -1 then do
    let e ← dict.entry? idx.toNat
    dict.write idx.toNat { e with value := value }
  else do
    let grown := if dict.len = dict.cap then
        { dict with cap := dict.cap * 2, entry := reallocEntry dict.entry (dict.cap * 2) }
      else dict
    let written ← grown.write grown.len ⟨key, value⟩
    some { written with len := grown.len + 1 }

/-- `dict_new`. -/
def dictNew : Dict := ⟨0, 10, List.replicate 10 none⟩

/-- The dict that holds one key, as `dict_new` and `dict_add` make it. -/
def Dict.single (key : CString) (value : ℤ) : Dict :=
  ⟨1, 10, some ⟨key, value⟩ :: List.replicate 9 none⟩

/-- The search in a dict of one key comes to an answer. -/
theorem dictFindIndex_single (key key' : CString) (value : ℤ) :
    dictFindIndex (Dict.single key value) key' = some (if key = key' then 0 else -1) := by
  show (if key = key' then some ((0 : ℕ) : ℤ) else some (-1)) = _
  split_ifs <;> rfl

end PgliteBuild
