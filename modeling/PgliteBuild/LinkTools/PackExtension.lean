import PgliteBuild.Foundation.Runs
import PgliteBuild.LinkTools.Getsyms
import Mathlib.Data.List.Nodup
import Mathlib.Data.List.Perm.Basic
import Mathlib.Logic.Function.Basic

/-! # pack_extension.py

The build installs one extension after the other below `PGROOT` and runs the script behind each. The script walks
the tree, takes the files of an extension that are not in the list of the files of the core, records what their
modules import, and moves them to an archive that is named after the last module of the walk.

`Collector` is what the script is for: the files that wait for an archive, and those that stay. A run of the build
is a run of the collector (`builds_collect`), in whatever order the tree is walked. -/

namespace PgliteBuild

open PyString Runs

/-! ## Paths -/

/-- The root of a path; two slashes are kept, but three are not. -/
def pathRoot (s : Str) : Str :=
  if ['/', '/'].isPrefixOf s ∧ ¬['/', '/', '/'].isPrefixOf s then ['/', '/']
  else if ['/'].isPrefixOf s then ['/'] else []

/-- The components of a path. -/
def pathParts (s : Str) : List Str := (s.splitOn '/').filter fun part => part ≠ [] ∧ part ≠ ['.']

/-- `Path(s).as_posix()`. -/
def asPosix (s : Str) : Str :=
  if pathRoot s = [] ∧ pathParts s = [] then ['.'] else pathRoot s ++ ['/'].intercalate (pathParts s)

/-- `path.name`. -/
def pathName (path : Str) : Str := (rsplitOnce ['/'] path).elim path Prod.snd

/-- `path.stem` and `path.suffix`: a dot at the start or at the end of the name begins no suffix. -/
def stemSuffix (path : Str) : Str × Str :=
  match rsplitOnce ['.'] (pathName path) with
  | some (stem, ext) => if stem = [] ∨ ext = [] then (pathName path, []) else (stem, '.' :: ext)
  | none => (pathName path, [])

/-! ## The script -/

/-- A file below `PGROOT`: its path from there, whether it is a symbolic link, and its content. -/
structure PgFile (γ : Type) where
  path : Str
  link : Bool
  content : γ
  deriving DecidableEq

/-- What the script asks the host for. -/
structure BuildHost (γ : Type) where
  /-- The lines of `wasm-objdump -x`. -/
  objdump : γ → List Str
  /-- Whether a path is a symbolic link, from the root of the host on. -/
  isSymlink : Str → Bool

/-- The words that the script looks for in its arguments: `/plpgsql` and `builtin`. -/
structure PackArgs where
  preinst : Bool
  builtin : Bool
  deriving DecidableEq

/-- The files below `PGROOT`, one for each path. -/
structure FileTree (γ : Type) where
  files : List (PgFile γ)
  nodup : (files.map PgFile.path).Nodup

/-- The installation, and the files that the script writes. -/
structure Dist (γ : Type) where
  tree : FileTree γ
  /-- The lines of `pg.BUILD.installed`. -/
  installed : List Str
  /-- The files below `PGL_DIST_LINK/imports`. -/
  imports : Str → Option (List Str)
  /-- The `.tar` files below `PG_DIST_EXT`. -/
  archives : Str → Option (List (PgFile γ))
  /-- History only: the archives that were written, in order. -/
  written : List (Str × List (PgFile γ))

variable {γ : Type}

/-- `os.remove`, for each of these paths. -/
def FileTree.remove (paths : List Str) (t : FileTree γ) : FileTree γ where
  files := t.files.filter fun f => !paths.contains f.path
  nodup := t.nodup.sublist (List.filter_sublist.map _)

/-- `make install` puts a file into the tree, in place of the one that was there. -/
def FileTree.put (f : PgFile γ) (t : FileTree γ) : FileTree γ where
  files := (t.remove [f.path]).files ++ [f]
  nodup := by
    rw [List.map_append, List.map_singleton]
    refine List.nodup_append.mpr ⟨(t.remove [f.path]).nodup, List.nodup_singleton _, ?_⟩
    intro path hpath path' hpath' heq
    obtain ⟨g, hg, rfl⟩ := List.mem_map.mp hpath
    have hne := (List.mem_filter.mp hg).2
    rw [heq, List.mem_singleton.mp hpath'] at hne
    simp at hne

variable (H : BuildHost γ)

/-- `INSTALLED`. -/
def installedPaths (preinst : Bool) (lines : List Str) : List Str :=
  (lines.map fun line => asPosix (strip isSpace (line.drop 1))).filter fun asp =>
    !(preinst && decide (0 < find asp "/plpgsql".toList))

/-- The first test of `is_extension`, with the test of the suffix. -/
def isModule (path : Str) : Bool :=
  "/lib/postgresql/".toList.isPrefixOf path && (stemSuffix path).2 == ".so".toList

/-- What `is_extension` returns. -/
def isExtension (path : Str) : Bool :=
  "/lib/postgresql/".toList.isPrefixOf path || "/lib/".toList.isPrefixOf path ||
    "/share/postgresql/extension".toList.isPrefixOf path

/-- The globals that a walk sets. -/
structure Walk (γ : Type) where
  extname : Str
  packlist : List (PgFile γ)
  imports : Str → Option (List Str)

/-- What `is_extension` does for a module: its name, and the symbols that it imports. -/
def Walk.sniff (w : Walk γ) (f : PgFile γ) : Walk γ :=
  if isModule f.path then
    { w with
      extname := (stemSuffix f.path).1
      imports := Function.update w.imports (stemSuffix f.path).1
        (some (getsyms false false [] (H.objdump f.content)).1) }
  else w

/-- One round of the loop of `archive`. -/
def Walk.visit (installed : List Str) (w : Walk γ) (f : PgFile γ) : Walk γ :=
  -- `PGROOT/test` is `test`, since `test` is absolute
  if H.isSymlink f.path then w
  else if installed.contains f.path then w
  else if "/sdk/".toList.isPrefixOf f.path then w
  else if "/base/".toList.isPrefixOf f.path then w
  else if f.link then w
  else
    let w := w.sniff H f
    if isExtension f.path then { w with packlist := w.packlist ++ [f] } else w

/-- The loop of `archive`, over the tree in the order of `os.walk`. -/
def Dist.walk (args : PackArgs) (order : FileTree γ) (d : Dist γ) : Walk γ :=
  order.files.foldl (Walk.visit H (installedPaths args.preinst d.installed)) ⟨[], [], d.imports⟩

/-- The script. -/
def Dist.pack (args : PackArgs) (order : FileTree γ) (d : Dist γ) : Dist γ :=
  let w := d.walk H args order
  -- without a module the script ends here
  if w.extname = [] then { d with tree := order, imports := w.imports }
  else if !args.preinst && !args.builtin then
    if w.packlist ≠ [] then
      { d with
        tree := order.remove (w.packlist.map PgFile.path)
        imports := w.imports
        archives := Function.update d.archives w.extname (some w.packlist)
        written := d.written ++ [(w.extname, w.packlist)] }
    else { d with tree := order, imports := w.imports }
  else { d with tree := order, imports := w.imports }

/-! ## Runs of the build -/

/-- What the build does. -/
inductive BuildStep (γ : Type) where
  | install (f : PgFile γ)
  | pack (args : PackArgs)

/-- One step of the build; a tree may be walked in any order. -/
inductive Builds : Dist γ → BuildStep γ → Dist γ → Prop
  | install {d : Dist γ} (f : PgFile γ) : Builds d (.install f) { d with tree := d.tree.put f }
  | pack {d : Dist γ} (args : PackArgs) {order : FileTree γ} (horder : order.files.Perm d.tree.files) :
      Builds d (.pack args) (d.pack H args order)

/-- One step of a build that walks a tree as it is listed. -/
def Dist.next (d : Dist γ) : BuildStep γ → Dist γ
  | .install f => { d with tree := d.tree.put f }
  | .pack args => d.pack H args d.tree

/-- A build that walks its trees as they are listed is a build. -/
theorem reaches_next (H : BuildHost γ) (d : Dist γ) (is : List (BuildStep γ)) :
    Reaches (Builds H) d is (is.foldl (Dist.next H) d) := by
  induction is using List.reverseRecOn with
  | nil => exact .nil
  | append_singleton is i ih =>
      rw [List.foldl_append, List.foldl_cons, List.foldl_nil]
      apply Reaches.snoc ih
      cases i with
      | install f => exact .install f
      | pack args => exact .pack args (.refl _)

/-! ## What a walk finds -/

/-- The file belongs into an archive. -/
def Packable (installed : List Str) (f : PgFile γ) : Bool :=
  !H.isSymlink f.path && !installed.contains f.path && !"/sdk/".toList.isPrefixOf f.path &&
    !"/base/".toList.isPrefixOf f.path && !f.link && isExtension f.path

/-- The modules among the files. -/
def modules (files : List (PgFile γ)) : List (PgFile γ) := files.filter fun f => isModule f.path

/-- The name of a module. -/
def PgFile.stem (f : PgFile γ) : Str := (stemSuffix f.path).1

/-- What getsyms.py prints for a module. -/
def importsOf (f : PgFile γ) : List Str := (getsyms false false [] (H.objdump f.content)).1

/-- Record the imports of a module. -/
def recordImports (imports : Str → Option (List Str)) (f : PgFile γ) : Str → Option (List Str) :=
  Function.update imports f.stem (some (importsOf H f))

variable {H} {installed : List Str} {f : PgFile γ} {w : Walk γ} {d d' : Dist γ} {args : PackArgs}
  {order : FileTree γ}

/-- A module is a file of an extension. -/
theorem isExtension_of_isModule {path : Str} (h : isModule path = true) : isExtension path = true := by
  have hlib := (Bool.and_eq_true _ _).mp h
  rw [isExtension, hlib.1, Bool.true_or, Bool.true_or]

/-- A suffix stands behind a stem. -/
theorem stem_ne_nil (h : isModule f.path = true) : f.stem ≠ [] := by
  have hsuffix : (stemSuffix f.path).2 = ".so".toList := eq_of_beq ((Bool.and_eq_true _ _).mp h).2
  unfold PgFile.stem
  unfold stemSuffix at hsuffix ⊢
  split at hsuffix
  · split_ifs at hsuffix ⊢ with hempty
    · cases hsuffix
    · exact fun hstem => hempty (.inl hstem)
  · cases hsuffix

/-- A round picks the file, or it does nothing. -/
theorem visit_eq (installed : List Str) (w : Walk γ) (f : PgFile γ) : w.visit H installed f =
    if Packable H installed f then
      { extname := if isModule f.path then f.stem else w.extname
        packlist := w.packlist ++ [f]
        imports := if isModule f.path then recordImports H w.imports f else w.imports }
    else w := by
  unfold Walk.visit Packable
  -- one test after the other; a file that passes all of them is looked at
  cases H.isSymlink f.path
  case true => rfl
  cases installed.contains f.path
  case true => rfl
  cases "/sdk/".toList.isPrefixOf f.path
  case true => rfl
  cases "/base/".toList.isPrefixOf f.path
  case true => rfl
  cases f.link
  case true => rfl
  cases hmodule : isModule f.path with
  | true =>
      rw [isExtension_of_isModule hmodule, Walk.sniff, if_pos hmodule]
      rfl
  | false =>
      rw [Walk.sniff, hmodule]
      cases isExtension f.path <;> rfl

/-- **What a walk finds**: the files to pack in its order, the name of the last module among them, and the imports
of each module. -/
theorem foldl_visit (files : List (PgFile γ)) (w : Walk γ) : files.foldl (Walk.visit H installed) w =
    { extname := ((modules (files.filter (Packable H installed))).map PgFile.stem).getLast?.getD w.extname
      packlist := w.packlist ++ files.filter (Packable H installed)
      imports := (modules (files.filter (Packable H installed))).foldl (recordImports H) w.imports } := by
  induction files generalizing w with
  | nil =>
      rw [List.filter_nil, List.append_nil]
      rfl
  | cons f files ih =>
      rw [List.foldl_cons, visit_eq, ih]
      cases hpack : Packable H installed f with
      | false => rw [if_neg (by simp), List.filter_cons_of_neg (by simp [hpack])]
      | true =>
          rw [if_pos rfl, List.filter_cons_of_pos hpack, List.append_assoc]
          cases hmodule : isModule f.path with
          | false =>
              have hrest : modules (f :: files.filter (Packable H installed)) =
                  modules (files.filter (Packable H installed)) := List.filter_cons_of_neg (by simp [hmodule])
              rw [hrest]
              rfl
          | true =>
              have hrest : modules (f :: files.filter (Packable H installed)) =
                  f :: modules (files.filter (Packable H installed)) := List.filter_cons_of_pos hmodule
              rw [hrest, List.map_cons, List.getLast?_cons, List.foldl_cons]
              rfl

/-- The files that belong into an archive of this installation. -/
def Dist.picks (H : BuildHost γ) (d : Dist γ) : PgFile γ → Bool := Packable H (installedPaths false d.installed)

/-! ## One run of the script -/

/-- Without a module, or for a part of the core, the script only records imports. -/
theorem pack_idle (h : args.preinst = true ∨ args.builtin = true ∨ modules (order.files.filter (d.picks H)) = []) :
    ∃ imports, d.pack H args order = { d with tree := order, imports := imports } := by
  unfold Dist.pack
  by_cases hname : (d.walk H args order).extname = []
  · exact ⟨_, if_pos hname⟩
  · rw [if_neg hname]
    rcases h with h | h | h
    · exact ⟨_, if_neg (by simp [h])⟩
    · exact ⟨_, if_neg (by simp [h])⟩
    · by_cases hpre : args.preinst = true
      · exact ⟨_, if_neg (by simp [hpre])⟩
      · rw [Bool.not_eq_true] at hpre
        refine absurd ?_ hname
        rw [Dist.picks] at h
        rw [Dist.walk, foldl_visit, hpre, h]
        rfl

/-- **With a module the script moves what waits into an archive**, which is named after a module of it. -/
theorem pack_moves (hpre : args.preinst = false) (hbuiltin : args.builtin = false)
    (hmodule : modules (order.files.filter (d.picks H)) ≠ []) :
    ∃ imports, ∃ f ∈ modules (order.files.filter (d.picks H)), d.pack H args order = { d with
      tree := order.remove ((order.files.filter (d.picks H)).map PgFile.path)
      imports := imports
      archives := Function.update d.archives f.stem (some (order.files.filter (d.picks H)))
      written := d.written ++ [(f.stem, order.files.filter (d.picks H))] } := by
  set waiting := order.files.filter (d.picks H) with hwaiting
  obtain ⟨f, hlast⟩ : ∃ f, (modules waiting).getLast? = some f := ⟨_, List.getLast?_eq_some_getLast hmodule⟩
  have hf : f ∈ modules waiting := List.mem_of_getLast? hlast
  -- the script takes the name for a missing module if it is empty, which the name of a module is not
  have hne : f.stem ≠ [] := stem_ne_nil (List.mem_filter.mp hf).2
  have hwalk : d.walk H args order = ⟨f.stem, waiting, (modules waiting).foldl (recordImports H) d.imports⟩ := by
    rw [Dist.picks] at hwaiting
    rw [Dist.walk, foldl_visit, hpre, ← hwaiting, List.getLast?_map, hlast]
    rfl
  have hsome : waiting ≠ [] := List.ne_nil_of_mem (List.mem_filter.mp hf).1
  refine ⟨(modules waiting).foldl (recordImports H) d.imports, f, hf, ?_⟩
  rw [Dist.pack, hwalk]
  simp only
  rw [if_neg hne, if_pos (by simp [hpre, hbuiltin]), if_pos hsome]

/-! ## The collector -/

/-- What the script is for: the files that wait for an archive, those that stay, and the archives made. -/
structure Collector (γ : Type) where
  waiting : List (PgFile γ)
  kept : List (PgFile γ)
  packs : List (List (PgFile γ))

/-- The files that are not at this path. -/
def without (path : Str) (files : List (PgFile γ)) : List (PgFile γ) := files.filter fun f => decide (f.path ≠ path)

/-- A file takes its place among those that wait or those that stay; an archive takes all that wait, once there is
a module among them. -/
def Collector.next (pack : PgFile γ → Bool) (c : Collector γ) : BuildStep γ → Collector γ
  | .install f =>
    { c with
      waiting := without f.path c.waiting ++ [f].filter pack
      kept := without f.path c.kept ++ [f].filter fun f => !pack f }
  | .pack args =>
    if !args.preinst && !args.builtin && !(modules c.waiting).isEmpty then
      { c with waiting := [], packs := c.packs ++ [c.waiting] }
    else c

/-- An archive of these files, which is named after a module in it. -/
def PacksFiles (w : Str × List (PgFile γ)) (files : List (PgFile γ)) : Prop :=
  w.2.Perm files ∧ ∃ f ∈ modules files, w.1 = f.stem

/-- The collector is where the build is, up to the order of the files. Archives of different names are all there. -/
structure Collects (H : BuildHost γ) (d₀ d : Dist γ) (c : Collector γ) : Prop where
  installed : d.installed = d₀.installed
  waiting : (d.tree.files.filter (d₀.picks H)).Perm c.waiting
  kept : (d.tree.files.filter fun f => !d₀.picks H f).Perm c.kept
  written : ∃ written, d.written = d₀.written ++ written ∧ List.Forall₂ PacksFiles written c.packs ∧
    ((written.map Prod.fst).Nodup → ∀ w ∈ written, d.archives w.1 = some w.2)

/-- A file that is installed takes the place of the one at its path. -/
theorem filter_put (p : PgFile γ → Bool) (f : PgFile γ) (t : FileTree γ) :
    (t.put f).files.filter p = without f.path (t.files.filter p) ++ [f].filter p := by
  have hrest : (t.remove [f.path]).files = without f.path t.files := by
    unfold FileTree.remove without
    refine List.filter_congr fun g _ => ?_
    simp
  show ((t.remove [f.path]).files ++ [f]).filter p = _
  rw [hrest, List.filter_append, without, without, List.filter_filter, List.filter_filter]
  congr 1
  exact List.filter_congr fun g _ => Bool.and_comm _ _

/-- Two files of a tree with one path are one file. -/
theorem FileTree.eq_of_path {t : FileTree γ} {g : PgFile γ} (hf : f ∈ t.files) (hg : g ∈ t.files)
    (h : f.path = g.path) : f = g := List.inj_on_of_nodup_map t.nodup hf hg h

/-- Removing the files that wait leaves those that stay. -/
theorem remove_waiting (p : PgFile γ → Bool) (t : FileTree γ) :
    (t.remove ((t.files.filter p).map PgFile.path)).files = t.files.filter fun f => !p f := by
  refine List.filter_congr fun f hf => ?_
  rw [Bool.not_inj_iff, Bool.eq_iff_iff, List.contains_iff_mem, List.mem_map]
  constructor
  · rintro ⟨g, hg, hpath⟩
    obtain ⟨hmem, hp⟩ := List.mem_filter.mp hg
    rwa [← FileTree.eq_of_path hmem hf hpath]
  · exact fun hp => ⟨f, List.mem_filter.mpr ⟨hf, hp⟩, rfl⟩

/-- The modules of a tree do not depend on its order. -/
theorem modules_perm {files files' : List (PgFile γ)} (h : files.Perm files') :
    (modules files).Perm (modules files') := h.filter _

/-- A step of the build is a step of the collector. -/
theorem Collects.step {d₀ : Dist γ} {c : Collector γ} {i : BuildStep γ} (h : Collects H d₀ d c)
    (hstep : Builds H d i d') : Collects H d₀ d' (c.next (d₀.picks H) i) := by
  obtain ⟨hinstalled, hwaiting, hkept, written, hwritten, hpacks, hthere⟩ := h
  have hpicks : d.picks H = d₀.picks H := by rw [Dist.picks, hinstalled, Dist.picks]
  cases hstep with
  | install f =>
      refine ⟨hinstalled, ?_, ?_, written, hwritten, hpacks, hthere⟩
      · show ((d.tree.put f).files.filter _).Perm _
        rw [filter_put]
        exact (hwaiting.filter _).append_right _
      · show ((d.tree.put f).files.filter _).Perm _
        rw [filter_put]
        exact (hkept.filter _).append_right _
  | @pack args order horder =>
      -- the tree as it was walked holds the same files
      have hwalked : (order.files.filter (d₀.picks H)).Perm c.waiting := (horder.filter _).trans hwaiting
      have hrest : (order.files.filter fun f => !d₀.picks H f).Perm c.kept := (horder.filter _).trans hkept
      have hmodules := modules_perm hwalked
      rw [Collector.next]
      split_ifs with hmode
      · simp only [Bool.and_eq_true, Bool.not_eq_true', List.isEmpty_eq_false_iff] at hmode
        obtain ⟨⟨hpre, hbuiltin⟩, hmodule⟩ := hmode
        have hne : modules (order.files.filter (d.picks H)) ≠ [] := by
          rw [hpicks]
          exact fun hnil => hmodule (hmodules.symm.trans (hnil ▸ .refl _)).eq_nil
        obtain ⟨imports, f, hf, hpack⟩ := pack_moves hpre hbuiltin hne
        have hremoved := remove_waiting (d₀.picks H) order
        rw [hpicks] at hpack hf
        rw [hpack]
        refine ⟨hinstalled, ?_, ?_, written ++ [(f.stem, order.files.filter (d₀.picks H))], ?_, ?_, ?_⟩
        · show (List.filter _ (order.remove _).files).Perm _
          rw [hremoved, List.filter_filter]
          simp
        · show (List.filter _ (order.remove _).files).Perm _
          rw [hremoved, List.filter_filter]
          simpa only [Bool.and_self] using hrest
        · show d.written ++ _ = _
          rw [hwritten, List.append_assoc]
        · exact List.rel_append hpacks (.cons ⟨hwalked, f, hmodules.mem_iff.mp hf, rfl⟩ .nil)
        · intro hnames w hw
          rw [List.map_append, List.nodup_append] at hnames
          rcases List.mem_append.mp hw with hbefore | hlast
          · have hne : w.1 ≠ f.stem :=
              hnames.2.2 _ (List.mem_map_of_mem hbefore) _ (List.mem_singleton_self _)
            exact (Function.update_of_ne hne _ _).trans (hthere hnames.1 w hbefore)
          · rw [List.mem_singleton.mp hlast]
            exact Function.update_self ..
      · have hidle : args.preinst = true ∨ args.builtin = true ∨ modules (order.files.filter (d.picks H)) = [] := by
          simp only [Bool.and_eq_true, Bool.not_eq_true', List.isEmpty_eq_false_iff, not_and, ne_eq, not_not] at hmode
          cases hpre : args.preinst with
          | true => exact .inl rfl
          | false =>
              cases hbuiltin : args.builtin with
              | true => exact .inr (.inl rfl)
              | false =>
                  rw [hpicks]
                  exact .inr (.inr (hmodules.trans (hmode ⟨hpre, hbuiltin⟩ ▸ .refl _)).eq_nil)
        obtain ⟨imports, hpack⟩ := pack_idle hidle
        rw [hpack]
        exact ⟨hinstalled, hwalked, hrest, written, hwritten, hpacks, hthere⟩

/-- The collector of an installation. -/
def Dist.collector (H : BuildHost γ) (d : Dist γ) : Collector γ where
  waiting := d.tree.files.filter (d.picks H)
  kept := d.tree.files.filter fun f => !d.picks H f
  packs := []

/-- **A run of the build is a run of the collector**, in whatever order the trees are walked. -/
theorem builds_collect {d₀ : Dist γ} {is : List (BuildStep γ)} (h : Reaches (Builds H) d₀ is d) :
    Collects H d₀ d (is.foldl (Collector.next (d₀.picks H)) (d₀.collector H)) := by
  refine h.inv_of_step (I := fun is d => Collects H d₀ d
    (is.foldl (Collector.next (d₀.picks H)) (d₀.collector H))) ?_ ?_
  · exact ⟨rfl, .refl _, .refl _, [], (List.append_nil _).symm, .nil, fun _ _ hw => by cases hw⟩
  · intro is i d d' hd hstep
    rw [List.foldl_append, List.foldl_cons, List.foldl_nil]
    exact hd.step hstep

/-! ## One extension after the other -/

/-- The build of extensions: the files of each are installed, and the script is run. -/
def buildSteps (exts : List (List (PgFile γ))) : List (BuildStep γ) :=
  exts.flatMap fun ext => ext.map .install ++ [.pack ⟨false, false⟩]

/-- A path that is not there removes nothing. -/
theorem without_of_forall {path : Str} {files : List (PgFile γ)} (h : ∀ f ∈ files, f.path ≠ path) :
    without path files = files := List.filter_eq_self.mpr fun f hf => decide_eq_true (h f hf)

/-- Files that are installed wait behind those that wait already. -/
theorem waiting_install (p : PgFile γ → Bool) {ext : List (PgFile γ)} {c : Collector γ}
    (h : ((c.waiting ++ ext).map PgFile.path).Nodup) :
    ((ext.map .install).foldl (Collector.next p) c).waiting = c.waiting ++ ext.filter p ∧
      ((ext.map .install).foldl (Collector.next p) c).packs = c.packs := by
  induction ext generalizing c with
  | nil => exact ⟨(List.append_nil _).symm, rfl⟩
  | cons f ext ih =>
      rw [List.map_append, List.map_cons, List.nodup_append] at h
      obtain ⟨hwaiting, hext, hdisjoint⟩ := h
      have hsame : without f.path c.waiting = c.waiting := without_of_forall fun g hg =>
        hdisjoint _ (List.mem_map_of_mem hg) _ (List.mem_cons_self ..)
      have hnext : (c.next p (.install f)).waiting = c.waiting ++ [f].filter p :=
        congrArg (· ++ [f].filter p) hsame
      have hnodup : (((c.next p (.install f)).waiting ++ ext).map PgFile.path).Nodup := by
        rw [hnext, List.append_assoc, List.map_append, List.nodup_append]
        have hsub : (([f].filter p ++ ext).map PgFile.path).Sublist (f.path :: ext.map PgFile.path) :=
          (List.filter_sublist.append_right ext).map PgFile.path
        exact ⟨hwaiting, hext.sublist hsub, fun a ha b hb => hdisjoint a ha b (hsub.subset hb)⟩
      obtain ⟨hw, hp⟩ := ih hnodup
      refine ⟨?_, hp⟩
      rw [List.map_cons, List.foldl_cons, hw, hnext, List.append_assoc, ← List.filter_append, List.singleton_append]

/-- Each extension goes into an archive of its own. -/
theorem packs_buildSteps (p : PgFile γ → Bool) {exts : List (List (PgFile γ))}
    (hnodup : ∀ ext ∈ exts, (ext.map PgFile.path).Nodup) (hmodule : ∀ ext ∈ exts, modules (ext.filter p) ≠ [])
    {c : Collector γ} (hwaiting : c.waiting = []) :
    ((buildSteps exts).foldl (Collector.next p) c).waiting = [] ∧
      ((buildSteps exts).foldl (Collector.next p) c).packs = c.packs ++ exts.map (List.filter p) := by
  induction exts generalizing c with
  | nil => exact ⟨hwaiting, (List.append_nil _).symm⟩
  | cons ext exts ih =>
      obtain ⟨hfirst, hrest⟩ := List.forall_mem_cons.mp hnodup
      obtain ⟨hfirst', hrest'⟩ := List.forall_mem_cons.mp hmodule
      have hpaths : ((c.waiting ++ ext).map PgFile.path).Nodup := by rwa [hwaiting, List.nil_append]
      obtain ⟨hw, hp⟩ := waiting_install p hpaths
      rw [hwaiting, List.nil_append] at hw
      rw [buildSteps, List.flatMap_cons, List.foldl_append, List.foldl_append, List.foldl_cons, List.foldl_nil]
      generalize (ext.map BuildStep.install).foldl (Collector.next p) c = c₁ at hw hp
      have hpack : c₁.next p (.pack ⟨false, false⟩) = { c₁ with waiting := [], packs := c₁.packs ++ [c₁.waiting] } :=
        if_pos (by simpa [hw] using hfirst')
      rw [hpack]
      obtain ⟨hend, hpacks⟩ := ih hrest hrest' (c := { c₁ with waiting := [], packs := c₁.packs ++ [c₁.waiting] }) rfl
      refine ⟨hend, hpacks.trans ?_⟩
      rw [hp, hw, List.append_assoc]
      rfl

/-- What stays is not removed, unless another file takes its place. -/
theorem mem_kept {p : PgFile γ → Bool} {is : List (BuildStep γ)} {c : Collector γ} {f : PgFile γ} (hf : f ∈ c.kept)
    (h : ∀ g, .install g ∈ is → g.path ≠ f.path) : f ∈ (is.foldl (Collector.next p) c).kept := by
  induction is generalizing c with
  | nil => exact hf
  | cons i is ih =>
      refine ih ?_ fun g hg => h g (List.mem_cons_of_mem i hg)
      cases i with
      | install g =>
          refine List.mem_append_left _ (List.mem_filter.mpr ⟨hf, decide_eq_true ?_⟩)
          exact (h g (List.mem_cons_self ..)).symm
      | pack args =>
          rw [Collector.next]
          split_ifs
          · exact hf
          · exact hf

/-- What a build of extensions makes of an installation. -/
structure Archived (H : BuildHost γ) (d₀ : Dist γ) (exts : List (List (PgFile γ))) (d : Dist γ) : Prop where
  /-- One archive for each extension, of its files and of no others; if their names differ, they are all there. -/
  separate : ∃ written, d.written = d₀.written ++ written ∧
    List.Forall₂ PacksFiles written (exts.map (List.filter (d₀.picks H))) ∧
    ((written.map Prod.fst).Nodup → ∀ w ∈ written, d.archives w.1 = some w.2)
  /-- No file of an extension is left. -/
  clean : d.tree.files.filter (d₀.picks H) = []
  /-- The installation is as it was. -/
  untouched : ∀ f ∈ d₀.tree.files, (∀ ext ∈ exts, ∀ g ∈ ext, g.path ≠ f.path) → f ∈ d.tree.files

/-- **Every extension gets an archive of its own**, in whatever order the trees are walked, if each has a module. -/
theorem extensions_archived {d₀ : Dist γ} {exts : List (List (PgFile γ))}
    (hnodup : ∀ ext ∈ exts, (ext.map PgFile.path).Nodup)
    (hmodule : ∀ ext ∈ exts, modules (ext.filter (d₀.picks H)) ≠ [])
    (hclean : d₀.tree.files.filter (d₀.picks H) = []) (h : Reaches (Builds H) d₀ (buildSteps exts) d) :
    Archived H d₀ exts d := by
  obtain ⟨-, hwaiting, hkept, hwritten⟩ := builds_collect h
  obtain ⟨hend, hpacks⟩ := packs_buildSteps (d₀.picks H) hnodup hmodule (c := d₀.collector H) hclean
  refine ⟨?_, ?_, fun f hf hother => ?_⟩
  · rwa [hpacks] at hwritten
  · rw [hend] at hwaiting
    exact hwaiting.eq_nil
  · have hstays : f ∈ (d₀.collector H).kept := by
      refine List.mem_filter.mpr ⟨hf, ?_⟩
      have hnot : f ∉ d₀.tree.files.filter (d₀.picks H) := by simp [hclean]
      simpa [hf] using hnot
    have hmem : f ∈ d.tree.files.filter fun f => !d₀.picks H f := by
      refine hkept.mem_iff.mpr (mem_kept hstays fun g hg => ?_)
      obtain ⟨ext, hext, hgext⟩ := List.mem_flatMap.mp hg
      have hinstall : g ∈ ext := by simpa using hgext
      exact hother ext hext g hinstall
    exact (List.mem_filter.mp hmem).1

/-- A host without symbolic links, and files that are their dumps. -/
def plainHost : BuildHost (List Str) := ⟨id, fun _ => false⟩

/-- An installation of one program. -/
def plainDist : Dist (List Str) where
  tree := ⟨[⟨"/bin/postgres".toList, false, []⟩], List.nodup_singleton _⟩
  installed := ["./bin/postgres\n".toList]
  imports := fun _ => none
  archives := fun _ => none
  written := []

/-- The files of an extension without scripts: its module and its control file. -/
def plainExtension (name : Str) : List (PgFile (List Str)) :=
  [⟨"/share/postgresql/extension/".toList ++ name ++ ".control".toList, false, []⟩,
    ⟨"/lib/postgresql/".toList ++ name ++ ".so".toList, false, []⟩]

/-- Two extensions, in two archives. -/
theorem extensions_archived_vector : ∃ d, Archived plainHost plainDist
      [plainExtension "vector".toList, plainExtension "pg_ivm".toList] d ∧
    d.written.map Prod.fst = ["vector".toList, "pg_ivm".toList] := by
  refine ⟨_, extensions_archived ?_ ?_ ?_ (reaches_next _ plainDist _), ?_⟩
  · decide +kernel
  · decide +kernel
  · decide +kernel
  · decide +kernel

end PgliteBuild
