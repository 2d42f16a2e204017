import PgliteBuild.Foundation.CInt
import PgliteBuild.Foundation.CString
import PgliteBuild.Foundation.FileStore
import Mathlib.Data.List.Induction

/-! # Shared memory

`shm_open` makes a file in the place of a segment. With `SHM` set, the path has a counter and not the name;
else it has the name, and `fopen` with `"w+"` empties the file. `shm_unlink` is a stub when `SHM` is set. -/

namespace PgliteBuild

open CInt CStr

/-- What `snprintf(tmpnam, 128, …)` keeps of a text. -/
def cut (path : CString) : CString := path.take 127

/-- `get_shm_path`, with the value of `SHM` and of `shm_index`. -/
def getShmPath (shm : Option CString) (shmIndex : ℤ) (name : CString) : CString :=
  match shm with
  | some shm => cut (shm ++ ascii "." ++ ascii (toString shmIndex))
  | none => cut (ascii "/tmp" ++ name)

/-- The value of `shm_index` after a call of `get_shm_path`. -/
def nextIndex (shm : Option CString) (shmIndex : ℤ) : ℤ :=
  if shm.isSome then toInt32 (shmIndex + 1) else shmIndex

/-- The files, `shm_index`, and the opens so far, by descriptor: the name and the file that is reached. -/
structure ShmState (F : Type*) where
  files : Files F
  shmIndex : ℤ
  opened : List (CString × ℕ)

/-- What a program does with shared memory. -/
inductive ShmOp where
  | opens (name : CString)
  | unlink (name : CString)
  | write (fd offset : ℕ) (bytes : List UInt8)
  deriving DecidableEq, Repr

namespace ShmState

variable {F : Type*} [DecidableEq F] (shm : Option CString) (resolve : CString → Option F)

/-- `shm_open`: the state and the descriptor. `resolve` tells the directory entry of a path; without one
`fopen` fails, and `fileno` does not return. -/
def shmOpen (s : ShmState F) (name : CString) : Option (ShmState F × ℕ) :=
  (resolve (getShmPath shm s.shmIndex name)).map fun f =>
    ({ files := (s.files.create f).1
       shmIndex := nextIndex shm s.shmIndex
       opened := s.opened ++ [(name, (s.files.create f).2)] }, s.opened.length)

/-- `shm_unlink`: the state and the returned value. -/
def shmUnlink (s : ShmState F) (name : CString) : ShmState F × ℤ :=
  if shm.isSome then (s, 0)
  else
    match resolve (getShmPath shm s.shmIndex name) with
    | none => (s, -1)
    | some f => if (s.files.entries f).isSome then ({ s with files := s.files.remove f }, 0) else (s, -1)

/-- A write through a descriptor. -/
def write (s : ShmState F) (fd offset : ℕ) (bytes : List UInt8) : ShmState F :=
  match s.opened[fd]? with
  | none => s
  | some (_, i) => { s with files := s.files.write i offset bytes }

/-- What an operation does, unless its `fopen` fails. -/
def step (s : ShmState F) : ShmOp → Option (ShmState F)
  | .opens name => (s.shmOpen shm resolve name).map Prod.fst
  | .unlink name => some (s.shmUnlink shm resolve name).1
  | .write fd offset bytes => some (s.write fd offset bytes)

/-- The state before the first call. -/
def boot (fs : Files F) : ShmState F := ⟨fs, 0, []⟩

/-- A run; `none` is a run in which a `fopen` failed. -/
def run (fs : Files F) (ops : List ShmOp) : Option (ShmState F) := ops.foldlM (step shm resolve) (boot fs)

end ShmState

/-! ## Names and segments -/

section Segments

variable {F : Type*} [DecidableEq F] (shm : Option CString) (resolve : CString → Option F) (fs : Files F)

/-- `shm_index` after some calls. -/
def indexAfter (ops : List ShmOp) : ℤ :=
  ops.foldl (fun k op => match op with
    | .opens _ => nextIndex shm k
    | _ => k) 0

/-- The calls name the segment `name` by the path `path`. -/
def UsesPath (ops : List ShmOp) (name path : CString) : Prop :=
  ∃ pre post, (ops = pre ++ .opens name :: post ∨ shm = none ∧ ops = pre ++ .unlink name :: post) ∧
    path = getShmPath shm (indexAfter shm pre) name

/-- The segment `name` was opened and not unlinked since. -/
def IsOpen (ops : List ShmOp) (name : CString) : Prop :=
  ∃ pre post, ops = pre ++ .opens name :: post ∧ .unlink name ∉ post

/-- Of any two opens in the calls, those of one name with no unlink between them reach the same file and the
second keeps its content, and those of different names reach different files. -/
def KeepsSegments (ops : List ShmOp) : Prop :=
  ∀ pre n mid m post, ops = pre ++ .opens n :: mid ++ .opens m :: post →
    ∃ s₁ s₂ s₃ i j, ShmState.run shm resolve fs (pre ++ [.opens n]) = some s₁ ∧
      ShmState.run shm resolve fs (pre ++ .opens n :: mid) = some s₂ ∧
      s₂.step shm resolve (.opens m) = some s₃ ∧
      s₁.opened.getLast? = some (n, i) ∧ s₃.opened.getLast? = some (m, j) ∧
      (n ≠ m → i ≠ j) ∧
      (n = m → .unlink n ∉ mid → i = j ∧ s₃.files.content i = s₂.files.content i)

/-- Calls that the code serves: every path opened has a directory entry, the paths of different names lead to
different entries and files, and an open segment is opened again only without `SHM` and while it is empty. -/
structure ServedCalls (ops : List ShmOp) : Prop where
  reach : ∀ pre n post, ops = pre ++ .opens n :: post →
    (resolve (getShmPath shm (indexAfter shm pre) n)).isSome = true
  apart : ∀ n p m q f g, UsesPath shm ops n p → UsesPath shm ops m q → n ≠ m → resolve p = some f →
    resolve q = some g → f ≠ g ∧ ∀ i, ¬(fs.entries f = some i ∧ fs.entries g = some i)
  again : ∀ pre n post, ops = pre ++ .opens n :: post → IsOpen pre n →
    shm = none ∧ ∀ s f i, ShmState.run shm resolve fs pre = some s →
      resolve (getShmPath shm (indexAfter shm pre) n) = some f → s.files.entries f = some i →
      s.files.content i = []

end Segments

/-! ## The invariant -/

namespace ShmState

variable {F : Type*} [DecidableEq F] {shm : Option CString} {resolve : CString → Option F} {fs : Files F}
  {U : CString → F → Prop} {s : ShmState F}

/-- With the names and entries `U` that a run uses: a name does not lead to the file that another name
leads to or was opened on. -/
structure Inv (U : CString → F → Prop) (s : ShmState F) : Prop where
  opened : ∀ n i, (n, i) ∈ s.opened → i < s.files.next
  apart : ∀ n f m g i, U n f → U m g → n ≠ m → s.files.entries f = some i → s.files.entries g ≠ some i
  others : ∀ n i m g, (n, i) ∈ s.opened → U m g → n ≠ m → s.files.entries g ≠ some i

/-- The state after an open that reaches the entry `f`. -/
def afterOpen (shm : Option CString) (s : ShmState F) (name : CString) (f : F) : ShmState F :=
  ⟨(s.files.create f).1, nextIndex shm s.shmIndex, s.opened ++ [(name, (s.files.create f).2)]⟩

/-- A call of `shm_open` whose path is found opens a stream. -/
theorem step_opens {n : CString} {f : F} (h : resolve (getShmPath shm s.shmIndex n) = some f) :
    s.step shm resolve (.opens n) = some (s.afterOpen shm n f) := by
  simp [step, shmOpen, h, afterOpen]

/-- The file that an open reaches is not one that another name leads to or was opened on. -/
theorem Inv.create_ne (h : Inv U s) {n : CString} {f : F} (hf : U n f) {m : CString} {i : ℕ}
    (hm : (m, i) ∈ s.opened) (hne : m ≠ n) : (s.files.create f).2 ≠ i := by
  intro heq
  rcases s.files.create_eq_or (f := f) with hold | hnew
  · exact h.others m i n f hm hf hne (by rw [hold, heq])
  · have hlt := h.opened m i hm
    omega

/-- Nor does another name lead to it. -/
theorem Inv.entries_ne_create (h : Inv U s) {n : CString} {f : F} (hf : U n f) {m : CString} {g : F}
    (hg : U m g) (hne : n ≠ m) : s.files.entries g ≠ some (s.files.create f).2 := by
  intro hentry
  rcases s.files.create_eq_or (f := f) with hold | hnew
  · exact h.apart n f m g _ hf hg hne hold hentry
  · have hlt := s.files.below g _ hentry
    omega

/-- An open keeps the invariant. -/
theorem Inv.opens (hU : ∀ n f m g, U n f → U m g → n ≠ m → f ≠ g) (h : Inv U s) {n : CString} {f : F}
    (hf : U n f) : Inv U (s.afterOpen shm n f) := by
  refine ⟨fun m i hm => ?_, fun m g k e i hg he hne => ?_, fun m i k g hm hg hne => ?_⟩
  · rcases List.mem_append.mp hm with hold | hnew
    · exact Nat.lt_of_lt_of_le (h.opened m i hold) Files.next_le_create
    · obtain ⟨rfl, rfl⟩ := Prod.mk.inj (List.mem_singleton.mp hnew)
      exact Files.create_lt_next
  · show (s.files.create f).1.entries g = some i → (s.files.create f).1.entries e ≠ some i
    -- an entry that was there, or the one that is opened, against another name's
    have hge : g ≠ e := hU m g k e hg he hne
    by_cases hgf : g = f
    · subst hgf
      rw [Files.entries_create_self, Files.entries_create_of_ne hge.symm, Option.some.injEq]
      rintro rfl
      exact h.entries_ne_create hg he hne
    · rw [Files.entries_create_of_ne hgf]
      intro hentry
      by_cases hef : e = f
      · subst hef
        rw [Files.entries_create_self]
        rintro ⟨rfl⟩
        exact h.entries_ne_create he hg hne.symm hentry
      · rw [Files.entries_create_of_ne hef]
        exact h.apart m g k e i hg he hne hentry
  · show (s.files.create f).1.entries g ≠ some i
    rcases List.mem_append.mp hm with hold | hnew
    · by_cases hgf : g = f
      · subst hgf
        rw [Files.entries_create_self, ne_eq, Option.some.injEq]
        exact h.create_ne hg hold hne
      · rw [Files.entries_create_of_ne hgf]
        exact h.others m i k g hold hg hne
    · obtain ⟨rfl, rfl⟩ := Prod.mk.inj (List.mem_singleton.mp hnew)
      rw [Files.entries_create_of_ne (hU m f k g hf hg hne).symm]
      exact h.entries_ne_create hf hg hne

/-- What `shm_unlink` does: nothing, or it removes the entry of the path. -/
theorem shmUnlink_files (shm : Option CString) (resolve : CString → Option F) (s : ShmState F) (n : CString) :
    (s.shmUnlink shm resolve n).1 = s ∨
    ∃ f, shm = none ∧ resolve (getShmPath shm s.shmIndex n) = some f ∧
      (s.shmUnlink shm resolve n).1 = { s with files := s.files.remove f } := by
  unfold shmUnlink
  cases shm with
  | some x => exact .inl rfl
  | none =>
      cases hf : resolve (getShmPath none s.shmIndex n) with
      | none => exact .inl rfl
      | some f =>
          by_cases hthere : (s.files.entries f).isSome = true
          · exact .inr ⟨f, rfl, rfl, by simp [hthere]⟩
          · exact .inl (by simp [hthere])

/-- Removing an entry keeps the invariant. -/
theorem Inv.remove (h : Inv U s) (f : F) : Inv U { s with files := s.files.remove f } := by
  -- fewer entries lead to fewer files
  have hsub : ∀ g i, (s.files.remove f).entries g = some i → s.files.entries g = some i := by
    intro g i hg
    by_cases heq : g = f
    · subst heq
      simp [Files.remove] at hg
    · simpa [Files.remove, heq] using hg
  exact ⟨h.opened, fun n g m e i hg he hne hentry hother => h.apart n g m e i hg he hne (hsub g i hentry)
    (hsub e i hother),
    fun n i m g hn hg hne hentry => h.others n i m g hn hg hne (hsub g i hentry)⟩

omit [DecidableEq F] in
/-- A write changes no entry. -/
theorem write_files (fd offset : ℕ) (bytes : List UInt8) :
    (s.write fd offset bytes).files.entries = s.files.entries ∧ (s.write fd offset bytes).files.next =
    s.files.next ∧
      (s.write fd offset bytes).opened = s.opened ∧ (s.write fd offset bytes).shmIndex = s.shmIndex := by
  unfold write
  cases s.opened[fd]? <;> exact ⟨rfl, rfl, rfl, rfl⟩

/-- The names that some calls use, with the entries that their paths have. -/
def UsesEntry (shm : Option CString) (resolve : CString → Option F) (ops : List ShmOp) (n : CString)
  (f : F) : Prop :=
  ∃ p, UsesPath shm ops n p ∧ resolve p = some f

/-- One served call keeps the invariant. -/
theorem Inv.step {ops pre post : List ShmOp} {op : ShmOp} (hserved : ServedCalls shm resolve fs ops)
    (hops : ops = pre ++ op :: post) (h : Inv (UsesEntry shm resolve ops) s)
    (hindex : s.shmIndex = indexAfter shm pre) :
    ∃ s', s.step shm resolve op = some s' ∧ Inv (UsesEntry shm resolve ops) s' ∧
      s'.shmIndex = indexAfter shm (pre ++ [op]) := by
  -- the entries of different names differ, whatever calls they come from
  have hdistinct : ∀ n f m g, UsesEntry shm resolve ops n f → UsesEntry shm resolve ops m g → n ≠ m →
    f ≠ g := by
    rintro n f m g ⟨p, hp, hf⟩ ⟨q, hq, hg⟩ hne
    exact (hserved.apart n p m q f g hp hq hne hf hg).1
  cases op with
  | opens n =>
      obtain ⟨f, hf⟩ := Option.isSome_iff_exists.mp (hserved.reach pre n post hops)
      have hresolve : resolve (getShmPath shm s.shmIndex n) = some f := by rw [hindex, hf]
      refine ⟨_, step_opens hresolve, h.opens hdistinct ⟨_, ⟨pre, post, .inl hops, rfl⟩, hf⟩, ?_⟩
      simp [afterOpen, indexAfter, hindex]
  | unlink n =>
      refine ⟨_, rfl, ?_⟩
      have hlast : indexAfter shm (pre ++ [.unlink n]) = indexAfter shm pre := by simp [indexAfter]
      rcases shmUnlink_files shm resolve s n with hsame | ⟨f, -, -, hremove⟩
      · rw [hsame, hlast]
        exact ⟨h, hindex⟩
      · rw [hremove, hlast]
        exact ⟨h.remove f, hindex⟩
  | write fd offset bytes =>
      obtain ⟨hentries, hnext, hopened, hsame⟩ := write_files (s := s) fd offset bytes
      refine ⟨_, rfl, ⟨?_, ?_, ?_⟩, ?_⟩
      · rw [hopened, hnext]
        exact h.opened
      · rw [hentries]
        exact h.apart
      · rw [hopened, hentries]
        exact h.others
      · rw [hsame, hindex]
        simp [indexAfter]

/-- A run with one more call. -/
theorem run_append_singleton (pre : List ShmOp) (op : ShmOp) :
    run shm resolve fs (pre ++ [op]) = (run shm resolve fs pre).bind fun s => s.step shm resolve op := by
  simp [run, List.foldlM_append]

/-- The invariant holds along served calls. -/
theorem inv_run {ops : List ShmOp} (hserved : ServedCalls shm resolve fs ops) (pre post : List ShmOp)
    (hops : ops = pre ++ post) : ∃ s, run shm resolve fs pre = some s ∧ Inv (UsesEntry shm resolve ops) s ∧
      s.shmIndex = indexAfter shm pre := by
  induction pre using List.reverseRecOn generalizing post with
  | nil =>
      refine ⟨boot fs, rfl, ⟨by simp [boot], ?_, by simp [boot]⟩, rfl⟩
      rintro n f m g i ⟨p, hp, hf⟩ ⟨q, hq, hg⟩ hne hentry hother
      exact (hserved.apart n p m q f g hp hq hne hf hg).2 i ⟨hentry, hother⟩
  | append_singleton pre op ih =>
      have hsplit : ops = pre ++ op :: post := by simpa using hops
      obtain ⟨s, hrun, hinv, hindex⟩ := ih (op :: post) hsplit
      obtain ⟨s', hstep, hinv', hindex'⟩ := hinv.step hserved hsplit hindex
      exact ⟨s', by rw [run_append_singleton, hrun, Option.bind_some, hstep], hinv', hindex'⟩

/-- Without `SHM`, a call that does not unlink a name keeps the entry of the name. -/
theorem entries_step {ops pre post : List ShmOp} {op : ShmOp} (hserved : ServedCalls none resolve fs ops)
    (hops : ops = pre ++ op :: post) (hindex : s.shmIndex = indexAfter none pre) {s' : ShmState F}
    (hstep : s.step none resolve op = some s') {n : CString} {f : F} {i : ℕ}
    (hpath : UsesPath none ops n (getShmPath none 0 n)) (hf : resolve (getShmPath none 0 n) = some f)
    (hne : op ≠ .unlink n) (hentry : s.files.entries f = some i) : s'.files.entries f = some i := by
  cases op with
  | opens m =>
      obtain ⟨g, hg⟩ := Option.isSome_iff_exists.mp (hserved.reach pre m post hops)
      rw [← hindex] at hg
      rw [step_opens hg, Option.some.injEq] at hstep
      subst hstep
      show (s.files.create g).1.entries f = some i
      by_cases hname : m = n
      · subst hname
        obtain rfl : g = f := Option.some.inj (hg.symm.trans hf)
        rw [Files.create_of_some hentry]
        exact hentry
      · have hother : UsesPath none ops m (getShmPath none s.shmIndex m) := ⟨pre, post, .inl hops, rfl⟩
        rw [Files.entries_create_of_ne (hserved.apart m _ n _ g f hother hpath hname hg hf).1.symm]
        exact hentry
  | unlink m =>
      have hname : m ≠ n := fun h => hne (h ▸ rfl)
      obtain rfl := Option.some.inj hstep
      rcases shmUnlink_files none resolve s m with hsame | ⟨g, -, hg, hremove⟩
      · rw [hsame]
        exact hentry
      · have hother : UsesPath none ops m (getShmPath none s.shmIndex m) := ⟨pre, post, .inr ⟨rfl, hops⟩, rfl⟩
        rw [hremove]
        simpa [Files.remove, (hserved.apart m _ n _ g f hother hpath hname hg hf).1.symm] using hentry
  | write fd offset bytes =>
      obtain rfl := Option.some.inj hstep
      rw [(write_files (s := s) fd offset bytes).1]
      exact hentry

/-- The entry of a name stays along calls that do not unlink it. -/
theorem entries_run {ops : List ShmOp} (hserved : ServedCalls none resolve fs ops) {n : CString} {f : F} {i : ℕ}
    (hpath : UsesPath none ops n (getShmPath none 0 n)) (hf : resolve (getShmPath none 0 n) = some f)
    {pre : List ShmOp} {s₁ : ShmState F} (hrun₁ : run none resolve fs pre = some s₁)
    (hentry : s₁.files.entries f = some i)
    (mid post : List ShmOp) (hops : ops = pre ++ mid ++ post) (hunlink : .unlink n ∉ mid) {s₂ : ShmState F}
    (hrun₂ : run none resolve fs (pre ++ mid) = some s₂) : s₂.files.entries f = some i := by
  induction mid using List.reverseRecOn generalizing post s₂ with
  | nil =>
      rw [List.append_nil, hrun₁, Option.some.injEq] at hrun₂
      exact hrun₂ ▸ hentry
  | append_singleton mid op ih =>
      have hsplit : ops = (pre ++ mid) ++ op :: post := by simpa using hops
      obtain ⟨s, hrun, -, hindex⟩ := inv_run hserved (pre ++ mid) (op :: post) hsplit
      rw [← List.append_assoc, run_append_singleton, hrun, Option.bind_some] at hrun₂
      have hne : op ≠ .unlink n := fun heq => hunlink (by simp [heq])
      have hkept := ih (op :: post) hsplit (fun h => hunlink (by simp [h])) hrun
      exact entries_step hserved hsplit hindex hrun₂ hpath hf hne hkept

/-- The opens so far stay on record. -/
theorem opened_step {op : ShmOp} {s' : ShmState F} (h : s.step shm resolve op = some s') : s.opened <+:
    s'.opened := by
  cases op with
  | opens n =>
      cases hf : resolve (getShmPath shm s.shmIndex n) with
      | none => simp [step, shmOpen, hf] at h
      | some f =>
          rw [step_opens hf, Option.some.injEq] at h
          exact h ▸ List.prefix_append _ _
  | unlink n =>
      obtain rfl := Option.some.inj h
      rcases shmUnlink_files shm resolve s n with hsame | ⟨f, -, -, hremove⟩
      · rw [hsame]
      · rw [hremove]
  | write fd offset bytes =>
      obtain rfl := Option.some.inj h
      rw [(write_files (s := s) fd offset bytes).2.2.1]

/-- No operation takes back what was opened. -/
theorem opened_run {pre : List ShmOp} {s₁ : ShmState F} (hrun₁ : run shm resolve fs pre = some s₁)
    (mid : List ShmOp)
    {s₂ : ShmState F} (hrun₂ : run shm resolve fs (pre ++ mid) = some s₂) : s₁.opened <+: s₂.opened := by
  induction mid using List.reverseRecOn generalizing s₂ with
  | nil =>
      rw [List.append_nil, hrun₁, Option.some.injEq] at hrun₂
      rw [hrun₂]
  | append_singleton mid op ih =>
      rw [← List.append_assoc, run_append_singleton] at hrun₂
      obtain ⟨s, hrun, hstep⟩ := Option.bind_eq_some_iff.mp hrun₂
      exact (ih hrun).trans (opened_step hstep)

end ShmState

/-- **Names identify segments in every sequence of served calls.** -/
theorem keepsSegments_of_served {F : Type*} [DecidableEq F] (shm : Option CString)
    (resolve : CString → Option F)
    (fs : Files F) (ops : List ShmOp) (hserved : ServedCalls shm resolve fs ops) :
    KeepsSegments shm resolve fs ops := by
  intro pre n mid m post hops
  have hops₁ : ops = pre ++ .opens n :: (mid ++ .opens m :: post) := by simpa using hops
  obtain ⟨s₀, hrun₀, -, hindex₀⟩ := ShmState.inv_run hserved pre _ hops₁
  obtain ⟨f, hf⟩ := Option.isSome_iff_exists.mp (hserved.reach pre n _ hops₁)
  have hrun₁ : ShmState.run shm resolve fs (pre ++ [.opens n]) = some (s₀.afterOpen shm n f) := by
    rw [ShmState.run_append_singleton, hrun₀, Option.bind_some, ShmState.step_opens (by rw [hindex₀, hf])]
  obtain ⟨s₂, hrun₂, hinv₂, hindex₂⟩ := ShmState.inv_run hserved (pre ++ .opens n :: mid) _ hops
  obtain ⟨g, hg⟩ := Option.isSome_iff_exists.mp (hserved.reach _ m post hops)
  have hrun₂' : ShmState.run shm resolve fs ((pre ++ [.opens n]) ++ mid) = some s₂ := by
    rw [List.append_assoc, List.singleton_append, hrun₂]
  have hmem : (n, (s₀.files.create f).2) ∈ s₂.opened :=
    (ShmState.opened_run hrun₁ mid hrun₂').subset (by simp [ShmState.afterOpen])
  -- different names: the first open is still on record, and the invariant keeps its file apart
  refine ⟨_, s₂, _, (s₀.files.create f).2, (s₂.files.create g).2, hrun₁, hrun₂,
    ShmState.step_opens (by rw [hindex₂, hg]), by simp [ShmState.afterOpen], by simp [ShmState.afterOpen],
    fun hne heq => ?_, fun hsame hunlink => ?_⟩
  · exact hinv₂.create_ne ⟨_, ⟨_, post, .inl hops, rfl⟩, hg⟩ hmem hne heq.symm
  · subst hsame
    -- the same name: its entry was kept since, and leads to a file that is empty
    obtain ⟨rfl, hempty⟩ := hserved.again _ n post hops ⟨pre, mid, rfl, hunlink⟩
    obtain rfl : g = f := Option.some.inj (hg.symm.trans hf)
    have hpath : UsesPath none ops n (getShmPath none 0 n) := ⟨pre, _, .inl hops₁, rfl⟩
    have hentry : s₂.files.entries g = some (s₀.files.create g).2 :=
      ShmState.entries_run hserved hpath hf hrun₁ Files.entries_create_self mid (.opens n :: post)
        (by simpa using hops)
        hunlink hrun₂'
    have hcontent := hempty s₂ g _ hrun₂ hg hentry
    rw [ShmState.afterOpen, Files.create_of_some hentry]
    exact ⟨rfl, by simp [hcontent]⟩

/-- A system without files. -/
def noFiles : Files CString := ⟨fun _ => none, fun _ => [], 0, fun _ _ h => by cases h⟩

/-- Two segments; the one that is still empty is opened again. -/
def twoSegments : List ShmOp :=
  [.opens (ascii "/a"), .opens (ascii "/b"), .write 1 0 [7], .opens (ascii "/a")]

/-- Two segments with two names keep their bytes. -/
theorem keepsSegments_twoSegments : ServedCalls none some noFiles twoSegments ∧
    KeepsSegments none some noFiles twoSegments := by
  have hserved : ServedCalls none some noFiles twoSegments := by
    refine ⟨fun _ _ _ _ => rfl, ?_, ?_⟩
    · have hname : ∀ n p, UsesPath none twoSegments n p →
          (n = ascii "/a" ∨ n = ascii "/b") ∧ p = getShmPath none 0 n := by
        rintro n p ⟨pre, post, hops, rfl⟩
        refine ⟨?_, rfl⟩
        rcases hops with hops | ⟨-, hops⟩
        · have hmem : ShmOp.opens n ∈ twoSegments := by simp [hops]
          simp only [twoSegments, List.mem_cons, ShmOp.opens.injEq, reduceCtorEq, List.not_mem_nil] at hmem
          tauto
        · have hmem : ShmOp.unlink n ∈ twoSegments := by simp [hops]
          simp [twoSegments] at hmem
      intro n p m q f g hp hq hne hf hg
      obtain ⟨hn, rfl⟩ := hname n p hp
      obtain ⟨hm, rfl⟩ := hname m q hq
      obtain rfl := Option.some.inj hf
      obtain rfl := Option.some.inj hg
      refine ⟨?_, fun i hi => by cases hi.1⟩
      rcases hn with rfl | rfl <;> rcases hm with rfl | rfl
      · exact absurd rfl hne
      · decide
      · decide
      · exact absurd rfl hne
    · rintro pre n post hops ⟨a, b, rfl, -⟩
      refine ⟨rfl, fun s f i hrun hf hi => ?_⟩
      have hab : ascii "/a" ≠ ascii "/b" := by decide
      -- only the last call opens a name again
      have hlength : a.length + b.length ≤ 2 := by
        have hsum := congrArg List.length hops
        simp only [twoSegments, List.length_append, List.length_cons, List.length_nil] at hsum
        omega
      obtain ⟨rfl, rfl, rfl⟩ : a = [] ∧ n = ascii "/a" ∧ b = [.opens (ascii "/b"), .write 1 0 [7]] := by
        rcases a with _ | ⟨x, _ | ⟨y, _ | ⟨z, a⟩⟩⟩ <;>
          rcases b with _ | ⟨u, _ | ⟨v, _ | ⟨w, b⟩⟩⟩ <;> simp [twoSegments] at hops <;> grind
      have hempty : (ShmState.run none some noFiles
          ([] ++ .opens (ascii "/a") :: [.opens (ascii "/b"), .write 1 0 [7]])).map
          (fun s => (s.files.entries (getShmPath none 0 (ascii "/a")), s.files.content 0)) =
            some (some 0, []) := by
        decide +kernel
      obtain rfl := Option.some.inj hf
      rw [hrun, Option.map_some, Option.some.injEq, Prod.mk.injEq] at hempty
      obtain rfl : i = 0 := Option.some.inj (hi.symm.trans hempty.1)
      exact hempty.2
  exact ⟨hserved, keepsSegments_of_served none some noFiles twoSegments hserved⟩

/-- A segment is opened, written, and opened again. -/
def rewritten : List ShmOp := [.opens (ascii "/a"), .write 0 0 [7], .opens (ascii "/a")]

/-- A segment that is opened again loses its bytes. -/
theorem not_keepsSegments_rewritten : ¬KeepsSegments none some noFiles rewritten := by
  intro h
  obtain ⟨s₁, s₂, s₃, i, j, hrun₁, hrun₂, hstep, hlast, -, -, hsame⟩ :=
    h [] (ascii "/a") [.write 0 0 [7]] (ascii "/a") [] rfl
  obtain ⟨-, hcontent⟩ := hsame rfl (by decide)
  -- the second `fopen` with `"w+"` empties the segment
  have hfile : (ShmState.run none some noFiles [.opens (ascii "/a")]).map (fun s => s.opened.getLast?) =
      some (some (ascii "/a", 0)) := by decide +kernel
  have hbefore : (ShmState.run none some noFiles [.opens (ascii "/a"), .write 0 0 [7]]).map
      (fun s => s.files.content 0) = some [7] := by decide +kernel
  have hafter : (ShmState.run none some noFiles rewritten).map (fun s => s.files.content 0) = some [] := by
    decide +kernel
  rw [List.nil_append] at hrun₁ hrun₂
  rw [hrun₁, Option.map_some, hlast] at hfile
  obtain rfl : i = 0 := by simpa using hfile
  rw [hrun₂, Option.map_some] at hbefore
  have hrun₃ : ShmState.run none some noFiles rewritten = some s₃ := by
    have hsplit : rewritten = [.opens (ascii "/a"), .write 0 0 [7]] ++ [.opens (ascii "/a")] := rfl
    rw [hsplit, ShmState.run_append_singleton, hrun₂, Option.bind_some, hstep]
  rw [hrun₃, Option.map_some, hcontent, Option.some.inj hbefore] at hafter
  exact absurd hafter (by decide)

end PgliteBuild
