import Mathlib.Data.List.Basic
import Mathlib.Data.List.Nodup
import PgliteBuild.Dlfcn.Dict

/-! # The `dict` helper as a finite map

A dict that `dict_new` made and `dict_add` filled stores a list of entries with distinct keys in its
first cells (`Dict.Stores`). Searching it is searching that list, and adding to it updates an entry in
place or appends one, into a larger array if the old one is full. -/

namespace PgliteBuild

open CStr

variable {dict : Dict} {es l₁ l₂ : List DictEntry} {key : CString} {value : ℤ}

/-! ## What a dict stores -/

/-- The keys of a list of entries. -/
def keysOf (es : List DictEntry) : List CString := es.map DictEntry.key

@[simp] theorem keysOf_nil : keysOf [] = [] := rfl

@[simp] theorem keysOf_cons (e : DictEntry) (es : List DictEntry) : keysOf (e :: es) = e.key :: keysOf es := rfl

@[simp] theorem keysOf_append (es es' : List DictEntry) : keysOf (es ++ es') = keysOf es ++ keysOf es' :=
  List.map_append

/-- The first cells of the array hold the entries `es`, with distinct keys, and the others were never
written. -/
structure Dict.Stores (dict : Dict) (es : List DictEntry) : Prop where
  len : dict.len = es.length
  entry : dict.entry = es.map some ++ List.replicate (dict.cap - es.length) none
  le : es.length ≤ dict.cap
  pos : 0 < dict.cap
  nodup : (keysOf es).Nodup

/-- A new dictionary stores nothing. -/
theorem stores_dictNew : dictNew.Stores [] := ⟨rfl, rfl, by decide, by decide, List.nodup_nil⟩

namespace Dict.Stores

variable (h : dict.Stores es)

include h

/-- All of the capacity is allocated. -/
theorem length_entry : dict.entry.length = dict.cap := by
  have hle := h.le
  rw [h.entry, List.length_append, List.length_map, List.length_replicate]
  omega

/-- A cell is readable exactly when it holds an entry. -/
theorem entry?_eq (i : ℕ) : dict.entry? i = es[i]? := by
  rw [Dict.entry?, h.entry]
  by_cases hi : i < es.length
  · rw [List.getElem?_append_left (by simpa using hi), List.getElem?_map, List.getElem?_eq_getElem hi]
    rfl
  · rw [List.getElem?_append_right (by simpa using hi), List.getElem?_eq_none (Nat.not_lt.mp hi),
      List.getElem?_replicate]
    split_ifs <;> rfl

/-! ## Searching -/

/-- The search from cell `i` on finds the first entry with the key. -/
theorem findIndexLoop {n i : ℕ} (hn : i + n = es.length) :
    dictFindIndexLoop dict key n i = some (if key ∈ keysOf (es.drop i)
      then ((i + (keysOf (es.drop i)).idxOf key : ℕ) : ℤ) else -1) := by
  induction n generalizing i with
  | zero =>
      rw [List.drop_of_length_le (by omega)]
      rfl
  | succ n ih =>
      have hi : i < es.length := by omega
      have hdrop : es.drop i = es[i] :: es.drop (i + 1) := List.drop_eq_getElem_cons hi
      rw [dictFindIndexLoop, h.entry?_eq, List.getElem?_eq_getElem hi, Option.bind_eq_bind, Option.bind_some,
        ih (by omega), hdrop, keysOf_cons]
      -- this entry has the key, or the search goes on behind it
      by_cases hkey : es[i].key = key
      · rw [if_pos hkey, if_pos (by simp [hkey]), hkey, List.idxOf_cons_self]
        rfl
      · have hidx : (es[i].key :: keysOf (es.drop (i + 1))).idxOf key =
            (keysOf (es.drop (i + 1))).idxOf key + 1 := List.idxOf_cons_ne _ hkey
        have hmem : key ∈ es[i].key :: keysOf (es.drop (i + 1)) ↔ key ∈ keysOf (es.drop (i + 1)) := by
          simp [Ne.symm hkey]
        rw [if_neg hkey, hidx]
        simp only [hmem]
        congr 2
        omega

/-- `dict_find_index` finds the entry of a key. -/
theorem findIndex_of_mem (hes : es = l₁ ++ ⟨key, value⟩ :: l₂) :
    dictFindIndex dict key = some (l₁.length : ℤ) := by
  -- with distinct keys the entry is the first one with its key
  have hfresh : key ∉ keysOf l₁ := by
    have hnodup := h.nodup
    rw [hes, keysOf_append, keysOf_cons] at hnodup
    intro hmem
    exact List.disjoint_of_nodup_append hnodup hmem List.mem_cons_self
  have hkeys : keysOf es = keysOf l₁ ++ key :: keysOf l₂ := by rw [hes, keysOf_append, keysOf_cons]
  rw [dictFindIndex, h.findIndexLoop (by rw [h.len, Nat.zero_add]), List.drop_zero, hkeys, if_pos (by simp),
    List.idxOf_append_of_notMem hfresh, List.idxOf_cons_self, keysOf, List.length_map, Nat.add_zero,
      Nat.zero_add]

/-- `dict_find_index` returns -1 for a key without an entry. -/
theorem findIndex_of_notMem (hkey : key ∉ keysOf es) : dictFindIndex dict key = some (-1) := by
  rw [dictFindIndex, h.findIndexLoop (by rw [h.len, Nat.zero_add]), List.drop_zero, if_neg hkey]

end Dict.Stores

/-! ## Adding -/

/-- The map that a list of entries stands for: `m` gives each key its value. -/
def MapOf (es : List DictEntry) (m : CString → Option ℤ) : Prop := ∀ key value, m key = some value ↔
  ⟨key, value⟩ ∈ es

/-- The dict stores the map `m`. -/
def Dict.Represents (dict : Dict) (m : CString → Option ℤ) : Prop := ∃ es, dict.Stores es ∧ MapOf es m

/-- A new dictionary represents the empty map. -/
theorem represents_dictNew : dictNew.Represents fun _ => none := ⟨[], stores_dictNew, by simp [MapOf]⟩

/-- A key without an entry has no value. -/
theorem MapOf.eq_none {m : CString → Option ℤ} (h : MapOf es m) (hkey : key ∉ keysOf es) : m key = none := by
  by_contra hne
  obtain ⟨value, hvalue⟩ := Option.ne_none_iff_exists'.mp hne
  exact hkey (List.mem_map.mpr ⟨_, (h key value).mp hvalue, rfl⟩)

/-- A key with an entry splits the list there. -/
theorem exists_split (hkey : key ∈ keysOf es) : ∃ l₁ l₂ value, es = l₁ ++ ⟨key, value⟩ :: l₂ := by
  obtain ⟨e, he, rfl⟩ := List.mem_map.mp hkey
  obtain ⟨l₁, l₂, rfl⟩ := List.append_of_mem he
  exact ⟨l₁, l₂, e.value, rfl⟩

/-- Writing into the cells allocated. -/
theorem Dict.write_eq {i : ℕ} (hi : i < dict.entry.length) (e : DictEntry) :
    dict.write i e = some { dict with entry := dict.entry.set i (some e) } := if_pos hi

section Add

variable {m : CString → Option ℤ} {value old : ℤ}

/-- `dict_add` of a key that is stored changes its value in place. -/
theorem Dict.Stores.add_present (h : dict.Stores (l₁ ++ ⟨key, old⟩ :: l₂)) (value : ℤ) :
    ∃ dict', dictAdd dict key value = some dict' ∧ dict'.Stores (l₁ ++ ⟨key, value⟩ :: l₂) := by
  have hlen : l₁.length < dict.entry.length := by
    have hle := h.le
    rw [List.length_append, List.length_cons] at hle
    rw [h.length_entry]
    omega
  have hcell : dict.entry? l₁.length = some ⟨key, old⟩ := by
    rw [h.entry?_eq, List.getElem?_append_right (le_refl _), Nat.sub_self]
    rfl
  have hfound : (l₁.length : ℤ) ≠ -1 := by omega
  refine ⟨{ dict with entry := dict.entry.set l₁.length (some ⟨key, value⟩) }, ?_, ?_⟩
  · rw [dictAdd, h.findIndex_of_mem rfl, Option.bind_eq_bind, Option.bind_some, if_pos hfound,
    Int.toNat_natCast,
      hcell, Option.bind_eq_bind, Option.bind_some]
    exact Dict.write_eq hlen _
  · refine ⟨?_, ?_, ?_, h.pos, ?_⟩
    · simpa using h.len
    · show dict.entry.set l₁.length (some ⟨key, value⟩) = _
      have hset : (l₁.map some).length ≤ l₁.length := by simp
      rw [h.entry, List.map_append, List.append_assoc, List.set_append_right _ _ hset, List.length_map,
        Nat.sub_self, List.map_append, List.append_assoc]
      simp
    · simpa using h.le
    · simpa using h.nodup

/-- `dict_add` of a new key appends it, in a larger array if the array is full. -/
theorem Dict.Stores.add_absent (h : dict.Stores es) (hkey : key ∉ keysOf es) (value : ℤ) :
    ∃ dict', dictAdd dict key value = some dict' ∧ dict'.Stores (es ++ [⟨key, value⟩]) := by
  -- with room for one more entry it is appended
  have happend : ∀ grown : Dict, grown.Stores es → es.length < grown.cap → ∃ dict', (do
      let written ← grown.write grown.len ⟨key, value⟩
      some { written with len := grown.len + 1 }) = some dict' ∧ dict'.Stores (es ++ [⟨key, value⟩]) := by
    intro grown hg hroom
    have hlen : grown.len < grown.entry.length := by rwa [hg.length_entry, hg.len]
    refine ⟨{ grown with len := grown.len + 1, entry := grown.entry.set grown.len (some ⟨key, value⟩) }, ?_, ?_⟩
    · rw [Dict.write_eq hlen]
      rfl
    · refine ⟨by simp [hg.len], ?_, by simpa using Nat.succ_le_of_lt hroom, hg.pos, ?_⟩
      · show grown.entry.set grown.len (some ⟨key, value⟩) = _
        obtain ⟨k, hk⟩ : ∃ k, grown.cap - es.length = k + 1 := ⟨grown.cap - es.length - 1, by omega⟩
        have hset : (es.map some).length ≤ es.length := by simp
        rw [hg.entry, hg.len, List.set_append_right _ _ hset, List.length_map, Nat.sub_self, hk,
          List.replicate_succ, List.set_cons_zero, List.length_append, List.length_singleton]
        have hrest : grown.cap - (es.length + 1) = k := by omega
        rw [show ({ grown with
            len := grown.len + 1
            entry := grown.entry.set grown.len (some ⟨key, value⟩) } : Dict).cap = grown.cap from rfl, hrest]
        simp
      · rw [keysOf_append, List.nodup_append]
        refine ⟨hg.nodup, by simp, fun k hk k' hk' => ?_⟩
        rintro rfl
        rw [List.mem_singleton.mp hk'] at hk
        exact hkey hk
  rw [dictAdd, h.findIndex_of_notMem hkey, Option.bind_eq_bind, Option.bind_some, if_neg (by simp)]
  have hpos := h.pos
  have hle := h.le
  by_cases hfull : dict.len = dict.cap
  · -- the array doubles, and keeps its entries
    rw [if_pos hfull]
    have hsize : es.length = dict.cap := h.len.symm.trans hfull
    refine happend _ ⟨h.len, ?_, ?_, ?_, h.nodup⟩ ?_
    · show reallocEntry dict.entry (dict.cap * 2) = es.map some ++
      List.replicate (dict.cap * 2 - es.length) none
      rw [reallocEntry, h.length_entry, h.entry, hsize, Nat.sub_self, List.replicate_zero, List.append_nil,
        List.take_of_length_le (by rw [List.length_map]; omega)]
    · show es.length ≤ dict.cap * 2
      omega
    · show 0 < dict.cap * 2
      omega
    · show es.length < dict.cap * 2
      omega
  · rw [if_neg hfull]
    have hlen := h.len
    exact happend dict h (by omega)

/-- **`dict_add` updates the map.** -/
theorem Dict.Represents.add (h : dict.Represents m) (key : CString) (value : ℤ) :
    ∃ dict', dictAdd dict key value = some dict' ∧ dict'.Represents (Function.update m key (some value)) := by
  obtain ⟨es, hes, hm⟩ := h
  by_cases hkey : key ∈ keysOf es
  · obtain ⟨l₁, l₂, old, rfl⟩ := exists_split hkey
    obtain ⟨dict', hadd, hes'⟩ := hes.add_present value
    refine ⟨dict', hadd, _, hes', fun key' value' => ?_⟩
    have hnodup := hes.nodup
    rw [keysOf_append, keysOf_cons, List.nodup_middle, List.nodup_cons, List.mem_append] at hnodup
    by_cases hsame : key' = key
    · subst hsame
      -- no other entry has this key
      have hother : (⟨key', value'⟩ : DictEntry) ∉ l₁ ++ l₂ := fun hmem =>
        hnodup.1 (List.mem_append.mp (keysOf_append l₁ l₂ ▸ List.mem_map.mpr ⟨_, hmem, rfl⟩))
      rw [List.mem_append] at hother
      simp only [Function.update_self, Option.some.injEq, List.mem_append, List.mem_cons, DictEntry.mk.injEq,
        true_and]
      constructor
      · rintro rfl
        exact .inr (.inl rfl)
      · rintro (hmem | heq | hmem)
        · exact absurd (.inl hmem) hother
        · exact heq.symm
        · exact absurd (.inr hmem) hother
    · rw [Function.update_of_ne hsame, hm]
      simp [hsame]
  · obtain ⟨dict', hadd, hes'⟩ := hes.add_absent hkey value
    refine ⟨dict', hadd, _, hes', fun key' value' => ?_⟩
    by_cases hsame : key' = key
    · subst hsame
      have hother : (⟨key', value'⟩ : DictEntry) ∉ es := fun hmem => hkey (List.mem_map.mpr ⟨_, hmem, rfl⟩)
      simp [hother, eq_comm]
    · rw [Function.update_of_ne hsame, hm]
      simp [hsame]

end Add

/-! ## Runs -/

/-- One `dict_add` after the other. -/
def dictAdds : List (CString × ℤ) → Dict → Option Dict
  | [], dict => some dict
  | (key, value) :: adds, dict => do
      let dict ← dictAdd dict key value
      dictAdds adds dict

/-- The value of the last `dict_add` of a key. -/
def lastAdded (adds : List (CString × ℤ)) (key : CString) : Option ℤ :=
  (adds.reverse.find? fun a => a.1 = key).map Prod.snd

/-- The last addition of a key is the one that counts. -/
theorem lastAdded_snoc (adds : List (CString × ℤ)) (key : CString) (value : ℤ) :
    lastAdded (adds ++ [(key, value)]) = Function.update (lastAdded adds) key (some value) := by
  funext key'
  by_cases hsame : key' = key
  · subst hsame
    simp [lastAdded]
  · rw [Function.update_of_ne hsame, lastAdded, lastAdded, List.reverse_append]
    simp [Ne.symm hsame]

/-- One more addition comes behind the others. -/
theorem dictAdds_snoc (adds : List (CString × ℤ)) (key : CString) (value : ℤ) (dict : Dict) :
    dictAdds (adds ++ [(key, value)]) dict = (dictAdds adds dict).bind fun dict => dictAdd dict key value := by
  induction adds generalizing dict with
  | nil =>
      show (dictAdd dict key value).bind some = dictAdd dict key value
      exact Option.bind_fun_some _
  | cons a adds ih =>
      obtain ⟨key', value'⟩ := a
      rw [List.cons_append, dictAdds, dictAdds, Option.bind_eq_bind, Option.bind_assoc]
      exact Option.bind_congr fun dict' _ => ih dict'

/-- A run of `dict_add` comes to an end, and stores the last value of each key. -/
theorem represents_dictAdds (adds : List (CString × ℤ)) :
    ∃ dict, dictAdds adds dictNew = some dict ∧ dict.Represents (lastAdded adds) := by
  induction adds using List.reverseRecOn with
  | nil => exact ⟨dictNew, rfl, represents_dictNew⟩
  | append_singleton adds a ih =>
      obtain ⟨dict, hrun, hdict⟩ := ih
      obtain ⟨dict', hadd, hdict'⟩ := hdict.add a.1 a.2
      refine ⟨dict', ?_, ?_⟩
      · rw [dictAdds_snoc, hrun]
        exact hadd
      · rwa [lastAdded_snoc]

/-! ## A finite map -/

/-- The dict is the finite map `m`: it is well formed, and searching it gives what `m` gives. -/
structure Dict.IsMap (dict : Dict) (m : CString → Option ℤ) : Prop where
  allocated : dict.entry.length = dict.cap
  within : dict.len ≤ dict.cap
  written : ∀ i < dict.len, ∃ e, dict.entry? i = some e
  distinct : ∀ i j e e', i < j → j < dict.len → dict.entry? i = some e → dict.entry? j = some e' →
    e.key ≠ e'.key
  find : ∀ key dflt, dictFind dict key dflt = some ((m key).getD dflt)
  index : ∀ key, ∃ idx, dictFindIndex dict key = some idx ∧ (idx = -1 ↔ m key = none)

/-- A dictionary that represents a map finds what the map says. -/
theorem Dict.Represents.isMap {m : CString → Option ℤ} (h : dict.Represents m) : dict.IsMap m := by
  obtain ⟨es, hes, hm⟩ := h
  -- a search misses, or hits the cell with the value
  have hsearch : ∀ key, key ∉ keysOf es ∧ m key = none ∧ dictFindIndex dict key = some (-1) ∨
      ∃ i value, m key = some value ∧ dictFindIndex dict key = some ((i : ℕ) : ℤ) ∧
        dict.entry? i = some ⟨key, value⟩ := by
    intro key
    by_cases hkey : key ∈ keysOf es
    · obtain ⟨l₁, l₂, value, rfl⟩ := exists_split hkey
      refine .inr ⟨l₁.length, value, (hm key value).mpr (by simp), hes.findIndex_of_mem rfl, ?_⟩
      rw [hes.entry?_eq, List.getElem?_append_right (le_refl _), Nat.sub_self]
      rfl
    · exact .inl ⟨hkey, hm.eq_none hkey, hes.findIndex_of_notMem hkey⟩
  refine ⟨hes.length_entry, hes.len ▸ hes.le, fun i hi => ?_, fun i j e e' hij hj he he' => ?_,
    fun key dflt => ?_,
    fun key => ?_⟩
  · rw [hes.len] at hi
    exact ⟨es[i], by rw [hes.entry?_eq, List.getElem?_eq_getElem hi]⟩
  · rw [hes.entry?_eq] at he he'
    have hkeys : ∀ {i : ℕ} {e : DictEntry}, es[i]? = some e → (keysOf es)[i]? = some e.key := by
      intro i e he
      rw [keysOf, List.getElem?_map, he, Option.map_some]
    intro hsame
    have hi : i < (keysOf es).length := by
      rw [keysOf, List.length_map, ← hes.len]
      omega
    have heq : (keysOf es)[i]? = (keysOf es)[j]? := by rw [hkeys he, hkeys he', hsame]
    exact hij.ne ((List.getElem?_inj hi hes.nodup).mp heq)
  · rcases hsearch key with ⟨-, hnone, hindex⟩ | ⟨i, value, hvalue, hindex, hcell⟩
    · rw [dictFind, hindex, hnone]
      rfl
    · have hne : ((i : ℕ) : ℤ) ≠ -1 := by omega
      rw [dictFind, hindex, hvalue, Option.bind_eq_bind, Option.bind_some, if_neg hne, Int.toNat_natCast, hcell]
      rfl
  · rcases hsearch key with ⟨-, hnone, hindex⟩ | ⟨i, value, hvalue, hindex, -⟩
    · exact ⟨-1, hindex, by simp [hnone]⟩
    · exact ⟨i, hindex, by rw [hvalue]; constructor <;> intro h <;> [omega; cases h]⟩

/-- **A dict is a finite map**: any sequence of `dict_add` calls on a new dict succeeds, and leaves the map
of the last values. -/
theorem dict_isMap (adds : List (CString × ℤ)) :
    ∃ dict, dictAdds adds dictNew = some dict ∧ dict.IsMap (lastAdded adds) := by
  obtain ⟨dict, hrun, hdict⟩ := represents_dictAdds adds
  exact ⟨dict, hrun, hdict.isMap⟩

end PgliteBuild
