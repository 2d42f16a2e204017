import PgliteBuild.Dlfcn.Dict

/-! # `dlopen` and its handle table

The wasi port answers `dlopen` from a table of dicts, one for each library. `volatile dict_t* dltab[]`
is a tentative definition without a size, which C completes to one element. What lies behind that
element is modelled as memory that keeps what is stored there; a cell never stored is a null pointer,
and searching it reads the memory at address 0. -/

namespace PgliteBuild

open CStr

/-- An access to an element of `dltab`. -/
inductive Access where
  | load (i : ℕ)
  | store (i : ℕ)
  deriving DecidableEq, Repr

/-- The index of an access. -/
def Access.index : Access → ℕ
  | .load i => i
  | .store i => i

/-- The number of elements of `dltab[]`. -/
def dltabSize : ℕ := 1

/-- The globals of `dlfcn`, with the accesses to `dltab` and the calls of `_PG_init` made so far. -/
structure Dlfcn where
  dltab : ℕ → Option Dict
  dltabIndex : ℕ
  accesses : List Access
  pgInits : ℕ

/-- The state of the file before the first call. -/
def Dlfcn.boot : Dlfcn := ⟨fun _ => none, 0, [], 0⟩

/-- Note an access to `dltab`. -/
def Dlfcn.touch (s : Dlfcn) (a : Access) : Dlfcn := { s with accesses := s.accesses ++ [a] }

/-- `dltab[i] = tab`. -/
def Dlfcn.put (s : Dlfcn) (i : ℕ) (tab : Dict) : Dlfcn :=
  { s.touch (.store i) with dltab := Function.update s.dltab i (some tab) }

/-- `ends_with`. -/
def endsWith (str suffix : CString) : Bool :=
  if suffix.length > str.length then false
  else strncmpEq (str.drop (str.length - suffix.length)) suffix suffix.length

/-- The name of the library whose `_PG_init` is linked in. -/
def plpgsqlSo : CString := ascii "/plpgsql.so"

/-- The search of `dlopen` from table `i` on, with `n` tables to go: `none` when it traps, else the
handle it returns or `none` at the end of the loop. `low` is what address 0 holds. -/
def dlopenLoop (low : Dict) (filename : CString) : ℕ → ℕ → Dlfcn → Option (Option ℕ) × Dlfcn
  | 0, _, s => (some none, s)
  | n + 1, i, s =>
      let s := s.touch (.load i)
      match dictFindIndex ((s.dltab i).getD low) filename with
      | none => (none, s)
      | some idx => if idx > 0 then (some (some i), s) else dlopenLoop low filename n (i + 1) s

/-- `dlopen`: the handle, or `none` when the call traps. -/
def dlopen (low : Dict) (filename : CString) (s : Dlfcn) : Option ℕ × Dlfcn :=
  match dlopenLoop low filename s.dltabIndex 0 s with
  | (none, s) => (none, s)
  | (some (some i), s) => (some i, s)
  | (some none, s) =>
      let s := if endsWith filename plpgsqlSo then { s with pgInits := s.pgInits + 1 } else s
      match dictAdd dictNew filename s.dltabIndex with
      | none => (none, s)
      | some tab =>
          -- `dltab_index++` happens in the arguments of `dict_add`, before the store
          let s := { s with dltabIndex := s.dltabIndex + 1 }
          (some s.dltabIndex, s.put s.dltabIndex tab)

/-- What one call did: its file name, the handle it returned and how often it called `_PG_init`. -/
structure Opened where
  filename : CString
  handle : ℕ
  inits : ℕ
  deriving DecidableEq, Repr

/-- One call after the other, each with what address 0 holds when it is made. -/
def dlopens : List (Dict × CString) → Dlfcn → List Opened × Dlfcn
  | [], s => ([], s)
  | (low, filename) :: calls, s =>
      match dlopen low filename s with
      | (none, t) => ([], t)
      | (some handle, t) =>
          let r := dlopens calls t
          (⟨filename, handle, t.pgInits - s.pgInits⟩ :: r.1, r.2)

/-- An access of `dltab` that stays in the array and reads only what the accesses `earlier` stored. -/
def Access.Valid (earlier : List Access) (a : Access) : Prop :=
  a.index < dltabSize ∧ ∀ i, a = .load i → .store i ∈ earlier

/-- Of two calls the later one finds what the earlier one opened, exactly when the names agree. -/
def Opened.Agrees (a b : Opened) : Prop :=
  (a.filename = b.filename → b.handle = a.handle ∧ b.inits = 0) ∧
    (a.filename ≠ b.filename → b.handle ≠ a.handle)

/-- What a handle table promises about a sequence of calls. -/
structure HandleTable (calls : List (Dict × CString)) : Prop where
  handles : (dlopens calls .boot).1.Pairwise Opened.Agrees
  accesses : ∀ earlier a, earlier ++ [a] <+: (dlopens calls .boot).2.accesses → a.Valid earlier

/-! ## Every call is a first call -/

/-- The tables stored so far, each in the element behind the one meant for it. -/
structure Shifted (s : Dlfcn) : Prop where
  first : s.dltab 0 = none
  stored : ∀ i, 0 < i → i ≤ s.dltabIndex → ∃ key value, s.dltab i = some (.single key value)

/-- Address 0 does not hold a dict with `filename` at an index above 0. -/
def Quiet (low : Dict) (filename : CString) : Prop :=
  ∃ idx ≤ 0, dictFindIndex low filename = some idx

/-- The search only records its loads. -/
def Dlfcn.Loaded (s t : Dlfcn) : Prop := ∃ as, t = { s with accesses := s.accesses ++ as }

/-- Nothing is read without an access. -/
theorem Dlfcn.Loaded.refl (s : Dlfcn) : s.Loaded s := ⟨[], by rw [List.append_nil]⟩

/-- An access in front is one access more. -/
theorem Dlfcn.Loaded.of_touch {s t : Dlfcn} {a : Access} (h : (s.touch a).Loaded t) : s.Loaded t := by
  obtain ⟨as, rfl⟩ := h
  exact ⟨a :: as, by simp [Dlfcn.touch]⟩

/-- The loop of `dlopen` reads the table only. -/
theorem dlopenLoop_loaded (low : Dict) (filename : CString) (n i : ℕ) (s : Dlfcn) :
    s.Loaded (dlopenLoop low filename n i s).2 := by
  induction n generalizing i s with
  | zero => exact .refl s
  | succ n ih =>
      apply Dlfcn.Loaded.of_touch (a := .load i)
      simp only [dlopenLoop]
      split
      · exact .refl _
      · split_ifs
        · exact .refl _
        · exact ih _ _

/-- A table of one key never answers an index above 0, so the search runs to its end. -/
theorem dlopenLoop_absent {low : Dict} {filename : CString} {n i : ℕ} {s : Dlfcn} (h : Shifted s)
    (hquiet : Quiet low filename) (hn : i + n ≤ s.dltabIndex) :
    (dlopenLoop low filename n i s).1 = some none := by
  induction n generalizing i s with
  | zero => rfl
  | succ n ih =>
      have hanswer : ∃ idx ≤ 0, dictFindIndex ((s.dltab i).getD low) filename = some idx := by
        rcases Nat.eq_zero_or_pos i with rfl | hi
        · rw [h.first]
          exact hquiet
        · obtain ⟨key, value, hkey⟩ := h.stored i hi (by omega)
          rw [hkey, Option.getD_some, dictFindIndex_single]
          refine ⟨_, ?_, rfl⟩
          split_ifs <;> omega
      obtain ⟨idx, hle, hidx⟩ := hanswer
      unfold dlopenLoop
      have htouch : (s.touch (.load i)).dltab i = s.dltab i := rfl
      simp only [htouch, hidx]
      rw [if_neg (by omega)]
      exact ih ⟨h.first, h.stored⟩ (by show i + 1 + n ≤ s.dltabIndex; omega)

/-- **One call** hands out the next handle, whatever was opened before it. -/
theorem dlopen_fresh {low : Dict} {filename : CString} {s : Dlfcn} (h : Shifted s)
    (hquiet : Quiet low filename) :
    (dlopen low filename s).1 = some (s.dltabIndex + 1) ∧ Shifted (dlopen low filename s).2 ∧
      (dlopen low filename s).2.dltabIndex = s.dltabIndex + 1 ∧
      (dlopen low filename s).2.pgInits =
        s.pgInits + if endsWith filename plpgsqlSo then 1 else 0 := by
  have habsent := dlopenLoop_absent h hquiet (Nat.le_of_eq (Nat.zero_add s.dltabIndex))
  obtain ⟨as, hloaded⟩ := dlopenLoop_loaded low filename s.dltabIndex 0 s
  have hloop : dlopenLoop low filename s.dltabIndex 0 s =
      (some none, { s with accesses := s.accesses ++ as }) := Prod.ext habsent hloaded
  unfold dlopen
  rw [hloop]
  have hstored : ∀ i, 0 < i → i ≤ s.dltabIndex + 1 → ∃ key value,
      Function.update s.dltab (s.dltabIndex + 1) (some (.single filename s.dltabIndex)) i =
        some (.single key value) := by
    intro i hi hle
    rcases Nat.lt_or_eq_of_le hle with hlt | rfl
    · rw [Function.update_of_ne (by omega)]
      exact h.stored i hi (by omega)
    · exact ⟨_, _, Function.update_self ..⟩
  have hfirst : Function.update s.dltab (s.dltabIndex + 1)
      (some (.single filename s.dltabIndex)) 0 = none := by
    rw [Function.update_of_ne (by omega)]
    exact h.first
  cases endsWith filename plpgsqlSo with
  | true => exact ⟨rfl, ⟨hfirst, hstored⟩, rfl, rfl⟩
  | false => exact ⟨rfl, ⟨hfirst, hstored⟩, rfl, rfl⟩

/-- What the calls return: handles that count up, and a call of `_PG_init` for each `plpgsql.so`. -/
def fresh : ℕ → List (Dict × CString) → List Opened
  | _, [] => []
  | k, (_, filename) :: calls =>
      ⟨filename, k + 1, if endsWith filename plpgsqlSo then 1 else 0⟩ :: fresh (k + 1) calls

/-- **Every call is a first call**: as long as address 0 holds no match, each call gets a handle of
its own and initialises the library again. -/
theorem dlopens_fresh {calls : List (Dict × CString)} {s : Dlfcn} (h : Shifted s)
    (hquiet : ∀ call ∈ calls, Quiet call.1 call.2) :
    (dlopens calls s).1 = fresh s.dltabIndex calls := by
  induction calls generalizing s with
  | nil => rfl
  | cons call calls ih =>
      obtain ⟨low, filename⟩ := call
      obtain ⟨hhandle, hshifted, hindex, hinits⟩ := dlopen_fresh h (hquiet _ List.mem_cons_self)
      have hrest := ih hshifted fun call' hmem => hquiet call' (List.mem_cons_of_mem _ hmem)
      have hcall : dlopen low filename s =
          (some (s.dltabIndex + 1), (dlopen low filename s).2) := Prod.ext hhandle rfl
      unfold dlopens
      rw [hcall]
      show Opened.mk _ _ _ :: (dlopens calls (dlopen low filename s).2).1 = _
      rw [hrest, hindex, hinits, Nat.add_sub_cancel_left]
      rfl

/-- The handles are opened for the names of the calls. -/
theorem fresh_filenames (k : ℕ) (calls : List (Dict × CString)) :
    (fresh k calls).map Opened.filename = calls.map Prod.snd := by
  induction calls generalizing k with
  | nil => rfl
  | cons call calls ih => exact congrArg (call.2 :: ·) (ih (k + 1))

/-- New handles are larger than the count that they start from. -/
theorem lt_handle_of_mem_fresh {k : ℕ} {calls : List (Dict × CString)} {o : Opened}
    (h : o ∈ fresh k calls) : k < o.handle := by
  induction calls generalizing k with
  | nil => cases h
  | cons call calls ih =>
      rcases List.mem_cons.mp h with rfl | hmem
      · exact Nat.lt_succ_self k
      · exact Nat.lt_of_succ_lt (ih hmem)

/-- New handles are different. -/
theorem fresh_handles (k : ℕ) (calls : List (Dict × CString)) :
    (fresh k calls).Pairwise fun a b => a.handle < b.handle := by
  induction calls generalizing k with
  | nil => exact .nil
  | cons call calls ih => exact .cons (fun o hmem => lt_handle_of_mem_fresh hmem) (ih (k + 1))

/-- The handles are those of a table just as long as no name is opened twice. -/
theorem dlopens_agrees_iff {calls : List (Dict × CString)}
    (hquiet : ∀ call ∈ calls, Quiet call.1 call.2) :
    (dlopens calls .boot).1.Pairwise Opened.Agrees ↔ (calls.map Prod.snd).Nodup := by
  have hboot : Shifted .boot := ⟨rfl, fun i hi hle => absurd hi (Nat.not_lt.mpr hle)⟩
  rw [dlopens_fresh hboot hquiet, ← fresh_filenames Dlfcn.boot.dltabIndex, List.Nodup,
    List.pairwise_map]
  have hcounts := fresh_handles Dlfcn.boot.dltabIndex calls
  constructor
  · intro h
    refine (h.and hcounts).imp ?_
    rintro a b ⟨hagrees, hlt⟩ hname
    have hsame := (hagrees.1 hname).1
    omega
  · intro h
    refine (h.and hcounts).imp ?_
    rintro a b ⟨hname, hlt⟩
    exact ⟨fun heq => absurd heq hname, fun _ => hlt.ne'⟩

/-! ## The table is never in bounds -/

/-- The accesses only grow. -/
theorem dlopen_accesses (low : Dict) (filename : CString) (s : Dlfcn) :
    s.accesses <+: (dlopen low filename s).2.accesses := by
  obtain ⟨as, hloaded⟩ := dlopenLoop_loaded low filename s.dltabIndex 0 s
  obtain ⟨found, t, hloop⟩ : ∃ found t, dlopenLoop low filename s.dltabIndex 0 s = (found, t) :=
    ⟨_, _, rfl⟩
  rw [hloop] at hloaded
  have hgrow : s.accesses <+: t.accesses := ⟨as, congrArg Dlfcn.accesses hloaded.symm⟩
  unfold dlopen
  rw [hloop]
  rcases found with _ | _ | i
  · exact hgrow
  · cases endsWith filename plpgsqlSo with
    | true => exact hgrow.trans (List.prefix_append _ _)
    | false => exact hgrow.trans (List.prefix_append _ _)
  · exact hgrow

/-- No call takes back an access. -/
theorem dlopens_accesses (calls : List (Dict × CString)) (s : Dlfcn) :
    s.accesses <+: (dlopens calls s).2.accesses := by
  induction calls generalizing s with
  | nil => exact List.prefix_rfl
  | cons call calls ih =>
      obtain ⟨low, filename⟩ := call
      have hcall := dlopen_accesses low filename s
      simp only [dlopens]
      generalize dlopen low filename s = outcome at hcall ⊢
      obtain ⟨_ | handle, t⟩ := outcome
      · exact hcall
      · exact hcall.trans (ih t)

/-- The first call stores behind the array. -/
theorem dlopen_boot (low : Dict) (filename : CString) :
    ∃ t, dlopen low filename .boot = (some 1, t) ∧ t.accesses = [.store 1] := by
  unfold dlopen
  cases endsWith filename plpgsqlSo with
  | true => exact ⟨_, rfl, rfl⟩
  | false => exact ⟨_, rfl, rfl⟩

/-- **The handle table** keeps its promises only while `dlopen` is not called. -/
theorem handleTable_iff (calls : List (Dict × CString)) : HandleTable calls ↔ calls = [] := by
  constructor
  · intro h
    cases calls with
    | nil => rfl
    | cons call calls =>
        obtain ⟨t, hcall, haccesses⟩ := dlopen_boot call.1 call.2
        have hrun : (dlopens (call :: calls) .boot).2 = (dlopens calls t).2 := by
          simp only [dlopens, hcall]
        have hgrow := dlopens_accesses calls t
        rw [← hrun, haccesses] at hgrow
        -- the store at index 1 is outside an array of one element
        have hbound := (h.accesses [] (.store 1) hgrow).1
        cases hbound with
        | step hle => cases hle
  · rintro rfl
    refine ⟨List.Pairwise.nil, ?_⟩
    intro earlier a hrun
    have hlen := hrun.length_le
    rw [List.length_append] at hlen
    exact absurd hlen (by show ¬ _ + 1 ≤ 0; omega)

/-- Opening `/lib/plpgsql.so` twice while the memory at address 0 is zero. -/
def reopenPlpgsql : List (Dict × CString) :=
  let call := (⟨0, 0, []⟩, ascii "/lib" ++ plpgsqlSo)
  [call, call]

/-- The second call gets another handle and calls `_PG_init` again. -/
theorem reopenPlpgsql_fails :
    (dlopens reopenPlpgsql .boot).1.map (fun o => (o.handle, o.inits)) = [(1, 1), (2, 1)] ∧
      ¬ HandleTable reopenPlpgsql := by
  have hrun : (dlopens reopenPlpgsql .boot).1.map (fun o => (o.handle, o.inits)) =
      [(1, 1), (2, 1)] := by decide
  refine ⟨hrun, ?_⟩
  intro h
  have hpair : ((dlopens reopenPlpgsql .boot).1.map fun o => (o.filename, o.handle)).Pairwise
      fun a b => a.1 = b.1 → b.2 = a.2 :=
    List.pairwise_map.mpr (h.handles.imp fun hab hname => (hab.1 hname).1)
  revert hpair
  decide

end PgliteBuild
