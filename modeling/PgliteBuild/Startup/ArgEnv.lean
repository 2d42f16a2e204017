import Mathlib.Data.List.Induction
import Mathlib.Data.List.TakeWhile
import Mathlib.Logic.Function.Basic
import PgliteBuild.Foundation.CString
import PgliteBuild.Foundation.TracedBlock

/-! # Arguments that set environment variables

`main_pre` takes every argument from the first one with a `=` on for an assignment. Its inner loop does
not stop at the first `=`: it copies the text before every `=` into `key` and tries to set a variable of
that name, and `setenv` refuses all but the first of them. -/

namespace PgliteBuild

open BlockMemory CStr

/-! ## The environment -/

/-- The environment: the value of each variable that is set. -/
abbrev Env := CString → Option CString

/-- `=`. -/
def equalsSign : UInt8 := 61

/-- `setenv(name, value, 1)`: it fails without effect for an empty name or one with a `=`. -/
def setenv (env : Env) (name value : CString) : Env :=
  if name = [] ∨ equalsSign ∈ name then env else Function.update env name (some value)

/-! ## The loops of `main_pre` -/

/-- What the loops of `main_pre` work on: the environment, and the local `key`. -/
structure ArgLoops where
  env : Env
  key : TracedBlock UInt8

/-- `sizeof(key)`. -/
def keySize : ℕ := 256

/-- One round of the inner loop, at the byte `sk` of the argument `kv`. -/
def extraEnvAt (kv : CString) (sk : ℕ) (s : ArgLoops) : ArgLoops :=
  -- the bound of `key` ends the loop
  if 255 < sk then s
  else if kv[sk]? = some equalsSign then
    -- `memcpy` of the text before this `=`, and the NUL behind it
    let key := (s.key.store 0 (kv.take sk)).store sk [0]
    ⟨setenv s.env (cstr (key.read 0 keySize)) (kv.drop (sk + 1)), key⟩
  else s

/-- The inner loop, over the first `n` bytes of the argument. -/
def extraEnvLoop (kv : CString) (n : ℕ) (s : ArgLoops) : ArgLoops :=
  (List.range n).foldl (fun s sk => extraEnvAt kv sk s) s

/-- The first loop of `main_pre`: the arguments from the first one with a `=` on. -/
def extraArgs : List CString → List CString
  | [] => []
  | kv :: argv => if equalsSign ∈ kv then kv :: argv else extraArgs argv

/-- The second loop of `main_pre`. -/
def extraEnv (argv : List CString) (s : ArgLoops) : ArgLoops :=
  (extraArgs argv).foldl (fun s kv => extraEnvLoop kv kv.length s) s

/-! ## What an argument assigns -/

/-- The text before the first `=`. -/
def argKey (kv : CString) : CString := kv.takeWhile (· ≠ equalsSign)

/-- The text after the first `=`. -/
def argValue (kv : CString) : CString := kv.drop ((argKey kv).length + 1)

/-- The argument assigns to the variable `key`: that is its text before the first `=`, of 1 to 255 bytes. -/
def Assigns (key kv : CString) : Prop :=
  equalsSign ∈ kv ∧ argKey kv = key ∧ 1 ≤ key.length ∧ key.length ≤ 255

instance (key kv : CString) : Decidable (Assigns key kv) := inferInstanceAs (Decidable (_ ∧ _ ∧ _ ∧ _))

/-- The environment after the assignment of an argument. -/
def assign (kv : CString) (env : Env) : Env := fun key => if Assigns key kv then some (argValue kv) else env key

variable {kv : CString} {sk : ℕ} {s : ArgLoops}

/-- The first `=` comes right after the key. -/
theorem getElem?_argKey (h : equalsSign ∈ kv) : kv[(argKey kv).length]? = some equalsSign := by
  induction kv with
  | nil => cases h
  | cons x kv ih =>
      rw [argKey]
      by_cases hx : x = equalsSign
      · rw [List.takeWhile_cons_of_neg (by simp [hx]), hx]
        rfl
      · rw [List.takeWhile_cons_of_pos (by simp [hx]), List.length_cons, List.getElem?_cons_succ]
        exact ih ((List.mem_cons.mp h).resolve_left fun heq => hx heq.symm)

/-- The key is the start of the argument, without a `=`. -/
theorem take_argKey (kv : CString) : kv.take (argKey kv).length = argKey kv :=
  (List.prefix_iff_eq_take.mp (List.takeWhile_prefix _)).symm

/-- The key of an argument has no `=`. -/
theorem notMem_argKey (kv : CString) : equalsSign ∉ argKey kv := fun h => by
  simpa using List.mem_takeWhile_imp h

/-- A `=` is not found inside the key. -/
theorem argKey_le (h : kv[sk]? = some equalsSign) : (argKey kv).length ≤ sk := by
  by_contra hlt
  have hin : (kv.take (argKey kv).length)[sk]? = some equalsSign := by
    rw [List.getElem?_take_of_lt (by omega), h]
  rw [take_argKey] at hin
  exact notMem_argKey kv (List.mem_of_getElem? hin)

/-! ## One argument -/

/-- What was copied into `key` is the text before the `=`. -/
theorem cstr_key (hnul : 0 ∉ kv) (hsk : sk ≤ 255) (hlen : sk ≤ kv.length) :
    cstr (((s.key.store 0 (kv.take sk)).store sk [0]).read 0 keySize) = kv.take sk := by
  have htake : (kv.take sk).length = sk := by rw [List.length_take, Nat.min_eq_left hlen]
  have hcopy := TracedBlock.read_store_self s.key 0 (kv.take sk)
  have hread := TracedBlock.read_store_append (s.key.store 0 (kv.take sk)) 0 sk [0]
  rw [htake] at hcopy
  rw [hcopy, Nat.zero_add, List.length_singleton] at hread
  obtain ⟨k, hk⟩ : ∃ k, keySize = sk + 1 + k := ⟨255 - sk, by rw [keySize]; omega⟩
  rw [TracedBlock.read, hk, Memory.read_add]
  rw [TracedBlock.read] at hread
  rw [hread, List.append_assoc, List.singleton_append]
  exact cstr_append_nul (fun hmem => hnul (List.mem_of_mem_take hmem)) _

/-- Only the first `=` of an argument has an effect on the environment. -/
theorem env_extraEnvAt (hnul : 0 ∉ kv) (hsk : sk < kv.length) (s : ArgLoops) :
    (extraEnvAt kv sk s).env = if sk = (argKey kv).length then assign kv s.env else s.env := by
  rw [extraEnvAt]
  split_ifs with hbig hat hfirst hat hat
  · -- behind the end of `key`
    funext key
    refine (if_neg ?_).symm
    rintro ⟨-, rfl, -, hlong⟩
    omega
  · rfl
  · -- the first `=`
    have hmem : equalsSign ∈ kv := List.mem_of_getElem? hfirst
    have hname : kv.take sk = argKey kv := by rw [hat, take_argKey]
    show setenv s.env _ _ = _
    rw [cstr_key hnul (by omega) hsk.le, hname, setenv]
    funext key
    by_cases hempty : argKey kv = []
    · rw [if_pos (.inl hempty)]
      refine (if_neg ?_).symm
      rintro ⟨-, rfl, hpos, -⟩
      rw [hempty] at hpos
      cases hpos
    · rw [if_neg (by simp [hempty, notMem_argKey])]
      by_cases hkey : argKey kv = key
      · subst hkey
        have hpos : 1 ≤ (argKey kv).length := List.length_pos_iff.mpr hempty
        have hassigns : Assigns (argKey kv) kv := ⟨hmem, rfl, hpos, by omega⟩
        rw [Function.update_self, assign, if_pos hassigns, argValue, hat]
      · rw [Function.update_of_ne (Ne.symm hkey), assign, if_neg fun h => hkey h.2.1]
  · -- a later `=`, with the first one in the name
    show setenv s.env _ _ = _
    have hlt : (argKey kv).length < sk := lt_of_le_of_ne (argKey_le hfirst) (Ne.symm hat)
    have hmem : equalsSign ∈ kv.take sk := by
      have hin : (kv.take sk)[(argKey kv).length]? = some equalsSign := by
        rw [List.getElem?_take_of_lt hlt, getElem?_argKey (List.mem_of_getElem? hfirst)]
      exact List.mem_of_getElem? hin
    rw [cstr_key hnul (by omega) hsk.le, setenv, if_pos (.inr hmem)]
  · -- no `=` at all
    funext key
    refine (if_neg ?_).symm
    rintro ⟨hmem, -⟩
    exact hfirst (hat ▸ getElem?_argKey hmem)
  · rfl

/-- A round of the inner loop writes `key` inside its bounds. -/
theorem stores_extraEnvAt (hsk : sk < kv.length) (h : ∀ i ∈ s.key.stores, i < keySize) :
    ∀ i ∈ (extraEnvAt kv sk s).key.stores, i < keySize := by
  intro i hi
  rw [extraEnvAt] at hi
  split_ifs at hi with hbig
  · exact h i hi
  · simp only [TracedBlock.mem_stores_store, List.length_take, List.length_singleton] at hi
    rcases hi with (hi | hi) | hi
    · exact h i hi
    · rw [keySize]
      omega
    · rw [keySize]
      omega
  · exact h i hi

/-- **Step lemma of the inner loop**: once the first `=` is reached the argument is assigned. -/
theorem extraEnvLoop_spec (hnul : 0 ∉ kv) {n : ℕ} (hn : n ≤ kv.length) (s : ArgLoops) :
    (extraEnvLoop kv n s).env = (if (argKey kv).length < n then assign kv s.env else s.env) ∧
      ((∀ i ∈ s.key.stores, i < keySize) → ∀ i ∈ (extraEnvLoop kv n s).key.stores, i < keySize) := by
  induction n with
  | zero => exact ⟨rfl, fun h => h⟩
  | succ n ih =>
      obtain ⟨henv, hstores⟩ := ih (by omega)
      have hstep : extraEnvLoop kv (n + 1) s = extraEnvAt kv n (extraEnvLoop kv n s) := by
        rw [extraEnvLoop, List.range_succ, List.foldl_append]
        rfl
      rw [hstep]
      refine ⟨?_, fun h => stores_extraEnvAt (by omega) (hstores h)⟩
      rw [env_extraEnvAt hnul (by omega), henv]
      -- before, at and behind the first `=`
      rcases lt_trichotomy n (argKey kv).length with hlt | heq | hgt
      · rw [if_neg (by omega), if_neg (by omega), if_neg (by omega)]
      · rw [if_pos heq, if_neg (by omega), if_pos (by omega)]
      · rw [if_neg (by omega), if_pos (by omega), if_pos (by omega)]

/-- An argument is assigned. -/
theorem extraEnvLoop_length (hnul : 0 ∉ kv) (s : ArgLoops) :
    (extraEnvLoop kv kv.length s).env = assign kv s.env := by
  rw [(extraEnvLoop_spec hnul le_rfl s).1]
  split_ifs with hlt
  · rfl
  · -- the key is the whole argument
    funext key
    refine (if_neg ?_).symm
    rintro ⟨hmem, -⟩
    have hat := List.getElem?_eq_some_iff.mp (getElem?_argKey hmem)
    exact hlt hat.1

/-! ## All arguments -/

/-- The first loop skips the arguments before the first one with a `=`, and no other. -/
theorem extraArgs_eq_dropWhile (argv : List CString) : extraArgs argv = argv.dropWhile (equalsSign ∉ ·) := by
  induction argv with
  | nil => rfl
  | cons x argv ih =>
      rw [extraArgs]
      split_ifs with hx
      · rw [List.dropWhile_cons_of_neg (by simpa using hx)]
      · rw [List.dropWhile_cons_of_pos (by simpa using hx), ih]

/-- The loops assign the arguments one after the other, and write `key` inside its bounds. -/
theorem assigns_all {kvs : List CString} (hnul : ∀ kv ∈ kvs, 0 ∉ kv) (s : ArgLoops)
    (hkey : ∀ i ∈ s.key.stores, i < keySize) :
    (kvs.foldl (fun s kv => extraEnvLoop kv kv.length s) s).env =
    kvs.foldl (fun env kv => assign kv env) s.env ∧
      ∀ i ∈ (kvs.foldl (fun s kv => extraEnvLoop kv kv.length s) s).key.stores, i < keySize := by
  induction kvs generalizing s with
  | nil => exact ⟨rfl, hkey⟩
  | cons kv kvs ih =>
      have hkv := hnul kv List.mem_cons_self
      have hspec := ih (fun kv' hkv' => hnul kv' (List.mem_cons_of_mem kv hkv')) (extraEnvLoop kv kv.length s)
        ((extraEnvLoop_spec hkv le_rfl s).2 hkey)
      rw [extraEnvLoop_length hkv] at hspec
      exact hspec

/-- The last assignment of a variable decides. -/
theorem foldl_assign (kvs : List CString) (env : Env) (key : CString) :
    kvs.foldl (fun env kv => assign kv env) env key =
      (kvs.reverse.find? (Assigns key ·)).elim (env key) fun kv => some (argValue kv) := by
  induction kvs using List.reverseRecOn with
  | nil => rfl
  | append_singleton kvs kv ih =>
      rw [List.foldl_append, List.foldl_cons, List.foldl_nil, List.reverse_append, List.reverse_singleton,
        List.singleton_append, assign]
      -- the last argument assigns to the variable, or an earlier one decides
      by_cases hkey : Assigns key kv
      · rw [if_pos hkey, List.find?_cons_of_pos (by simpa using hkey)]
        rfl
      · rw [if_neg hkey, List.find?_cons_of_neg (by simpa using hkey), ih]

/-- **The argument loops** look at the arguments from the first one with a `=` on. They leave in each variable
the value of the last of these that assigns to it, set no other variable, and write `key` only at the indices
0 to 255. -/
theorem extraEnv_spec (argv : List Arg) (env : Env) (mem : Memory Unit UInt8) :
    (∀ key, (extraEnv (argv.map Arg.text) ⟨env, .fresh mem⟩).env key =
      (((argv.map Arg.text).dropWhile (equalsSign ∉ ·)).reverse.find? (Assigns key ·)).elim (env key)
        fun kv => some (argValue kv)) ∧
    ∀ i ∈ (extraEnv (argv.map Arg.text) ⟨env, .fresh mem⟩).key.stores, i < 256 := by
  have hnul : ∀ kv ∈ extraArgs (argv.map Arg.text), 0 ∉ kv := by
    intro kv hkv
    rw [extraArgs_eq_dropWhile] at hkv
    obtain ⟨arg, -, rfl⟩ := List.mem_map.mp ((List.dropWhile_sublist _).subset hkv)
    exact arg.nulFree
  obtain ⟨henv, hkey⟩ := assigns_all hnul ⟨env, .fresh mem⟩ (by simp)
  refine ⟨fun key => ?_, hkey⟩
  rw [← extraArgs_eq_dropWhile, extraEnv, ← foldl_assign]
  exact congrFun henv key

end PgliteBuild
