import PgliteBuild.LinkTools.LinkImports
import PgliteBuild.LinkTools.PackExtension

/-! # From packed extensions to the exports of the core

An archive takes the modules of an extension out of the installation, so linkimports.sh does not find them there. It
finds their imports, which pack_extension.py records before: whatever was packed in a build, the core is linked to
export what its modules import (`packed_modules_served`). -/

namespace PgliteBuild

open PyString Runs

variable {γ : Type} {H : BuildHost γ} {d₀ d d' : Dist γ} {is : List (BuildStep γ)} {args : PackArgs} {order : FileTree γ}

/-! ## Files of a build -/

/-- The file was in the installation, or it was installed. -/
def Known (d₀ : Dist γ) (is : List (BuildStep γ)) (f : PgFile γ) : Prop := f ∈ d₀.tree.files ∨ .install f ∈ is

/-- A known file stays known. -/
theorem Known.mono {is js : List (BuildStep γ)} {f : PgFile γ} (h : Known d₀ is f) : Known d₀ (is ++ js) f :=
  h.imp_right (List.mem_append_left _)

/-- The imports of this name are those of a known module. -/
def Recorded (H : BuildHost γ) (known : PgFile γ → Prop) (imports : Str → Option (List Str)) (stem : Str) : Prop :=
  ∃ g, known g ∧ isModule g.path = true ∧ g.stem = stem ∧ imports stem = some (importsOf H g)

/-- What is recorded of known modules is recorded of more. -/
theorem Recorded.mono {known known' : PgFile γ → Prop} {imports : Str → Option (List Str)} {stem : Str}
    (h : Recorded H known imports stem) (hmono : ∀ g, known g → known' g) : Recorded H known' imports stem := by
  obtain ⟨g, hg, hrest⟩ := h
  exact ⟨g, hmono g hg, hrest⟩

/-! ## What a run of the script records -/

/-- Recording known modules keeps what is recorded, and records each of them. -/
theorem recorded_foldl {known : PgFile γ → Prop} {files : List (PgFile γ)}
    (hfiles : ∀ f ∈ files, known f ∧ isModule f.path = true) {imports : Str → Option (List Str)} {stem : Str}
    (h : Recorded H known imports stem ∨ ∃ f ∈ files, f.stem = stem) :
    Recorded H known (files.foldl (recordImports H) imports) stem := by
  induction files generalizing imports with
  | nil => exact h.resolve_right fun hnil => by simp at hnil
  | cons f files ih =>
      obtain ⟨⟨hknown, hmodule⟩, hrest⟩ := List.forall_mem_cons.mp hfiles
      apply ih hrest
      by_cases hstem : f.stem = stem
      · -- the last module of a name is the one whose imports stay
        subst hstem
        exact .inl ⟨f, hknown, hmodule, rfl, Function.update_self ..⟩
      · rcases h with ⟨g, hg, hg', hgstem, himports⟩ | ⟨g, hg, hgstem⟩
        · have hsame : recordImports H imports f stem = imports stem :=
            Function.update_of_ne (fun heq => hstem heq.symm) _ _
          exact .inl ⟨g, hg, hg', hgstem, hsame.trans himports⟩
        · rcases List.mem_cons.mp hg with rfl | hg
          · exact absurd hgstem hstem
          · exact .inr ⟨g, hg, hgstem⟩

/-- A run of the script records the modules that it finds. -/
theorem pack_imports (d : Dist γ) (args : PackArgs) (order : FileTree γ) : (d.pack H args order).imports =
    (modules (order.files.filter (Packable H (installedPaths args.preinst d.installed)))).foldl (recordImports H)
      d.imports := by
  have hwalk : (d.walk H args order).imports =
      (modules (order.files.filter (Packable H (installedPaths args.preinst d.installed)))).foldl (recordImports H)
        d.imports := by
    rw [Dist.walk, foldl_visit]
  rw [← hwalk, Dist.pack]
  split_ifs <;> rfl

/-- The files that are left were there before. -/
theorem pack_tree_subset {f : PgFile γ} (horder : order.files.Perm d.tree.files)
    (hf : f ∈ (d.pack H args order).tree.files) : f ∈ d.tree.files := by
  have hremoved : ∀ paths, f ∈ (order.remove paths).files → f ∈ d.tree.files := fun paths h =>
    horder.mem_iff.mp (List.mem_filter.mp h).1
  unfold Dist.pack at hf
  dsimp only at hf
  split_ifs at hf
  · exact horder.mem_iff.mp hf
  · exact hremoved _ hf
  · exact horder.mem_iff.mp hf
  · exact horder.mem_iff.mp hf

/-- What is written is an archive of the walk, or nothing. -/
theorem pack_written (d : Dist γ) (args : PackArgs) (order : FileTree γ) :
    (d.pack H args order).written = d.written ∨ ∃ name, (d.pack H args order).written =
      d.written ++ [(name, order.files.filter (Packable H (installedPaths args.preinst d.installed)))] := by
  have hwalk : (d.walk H args order).packlist =
      order.files.filter (Packable H (installedPaths args.preinst d.installed)) := by
    rw [Dist.walk, foldl_visit, List.nil_append]
  rw [← hwalk]
  unfold Dist.pack
  dsimp only
  split_ifs
  · exact .inl rfl
  · exact .inr ⟨_, rfl⟩
  · exact .inl rfl
  · exact .inl rfl

/-! ## What a build records -/

/-- The files of the tree and of the archives are known, and the imports of every module that was packed are recorded. -/
structure Records (H : BuildHost γ) (d₀ : Dist γ) (is : List (BuildStep γ)) (d : Dist γ) : Prop where
  tree : ∀ f ∈ d.tree.files, Known d₀ is f
  packed : ∃ written, d.written = d₀.written ++ written ∧
    ∀ w ∈ written, ∀ f ∈ modules w.2, Known d₀ is f ∧ Recorded H (Known d₀ is) d.imports f.stem

/-- A step of the build keeps the record. -/
theorem Records.step {i : BuildStep γ} (h : Records H d₀ is d) (hstep : Builds H d i d') :
    Records H d₀ (is ++ [i]) d' := by
  obtain ⟨htree, written, hwritten, hpacked⟩ := h
  have hmono : ∀ g, Known d₀ is g → Known d₀ (is ++ [i]) g := fun _ => Known.mono
  cases hstep with
  | install f =>
      -- nothing is recorded and nothing written; the tree gets the file
      refine ⟨fun g hg => ?_, written, hwritten, fun w hw g hg => ?_⟩
      rcases List.mem_append.mp hg with hbefore | hlast
      · exact (htree g (List.mem_filter.mp hbefore).1).mono
      · rw [List.mem_singleton.mp hlast]
        exact .inr (by simp)
      · obtain ⟨hknown, hrecorded⟩ := hpacked w hw g hg
        exact ⟨hknown.mono, hrecorded.mono hmono⟩
  | pack args horder =>
      rename_i order
      set picked := order.files.filter (Packable H (installedPaths args.preinst d.installed))
      have hknown : ∀ f ∈ modules picked, Known d₀ (is ++ [.pack args]) f ∧ isModule f.path = true := by
        intro f hf
        obtain ⟨hfile, hmodule⟩ := List.mem_filter.mp hf
        exact ⟨hmono f (htree f (horder.mem_iff.mp (List.mem_filter.mp hfile).1)), hmodule⟩
      -- a module of an earlier archive may be recorded again, by a known module of its name
      have hkept : ∀ w ∈ written, ∀ f ∈ modules w.2, Known d₀ (is ++ [.pack args]) f ∧
          Recorded H (Known d₀ (is ++ [.pack args])) (d.pack H args order).imports f.stem := by
        intro w hw f hf
        obtain ⟨hf', hrecorded⟩ := hpacked w hw f hf
        rw [pack_imports]
        exact ⟨hf'.mono, recorded_foldl hknown (.inl (hrecorded.mono hmono))⟩
      refine ⟨fun f hf => hmono f (htree f (pack_tree_subset horder hf)), ?_⟩
      rcases pack_written (H := H) d args order with hsame | ⟨name, hnew⟩
      · exact ⟨written, hsame.trans hwritten, hkept⟩
      · refine ⟨written ++ [(name, picked)], ?_, fun w hw f hf => ?_⟩
        · rw [hnew, hwritten, List.append_assoc]
        · rcases List.mem_append.mp hw with hbefore | hlast
          · exact hkept w hbefore f hf
          · rw [List.mem_singleton.mp hlast] at hf
            rw [pack_imports]
            exact ⟨(hknown f hf).1, recorded_foldl hknown (.inr ⟨f, hf, rfl⟩)⟩

/-- **A build keeps the record** of the modules that it packs. -/
theorem builds_record (h : Reaches (Builds H) d₀ is d) : Records H d₀ is d := by
  refine h.inv_of_step (I := Records H d₀) ?_ fun _ _ _ _ hd hstep => hd.step hstep
  exact ⟨fun _ hf => .inl hf, [], (List.append_nil _).symm, fun _ hw => by cases hw⟩

/-! ## From a build to the list -/

/-- The file in which linkimports.sh itself writes what the modules of the core import. -/
def pgcoreName : Str := "pgcore".toList

/-- The shell lists the file for `imports/*`. -/
def Globbed (name : Str) : Prop := name.head? ≠ some '.'

instance (name : Str) : Decidable (Globbed name) := inferInstanceAs (Decidable (_ ≠ _))

/-- The lines of `cat imports/* | sort | uniq`, when the script has written `pgcore` anew. -/
def ReadsImports (imports : Str → Option (List Str)) (pgcore lines : List Str) : Prop :=
  ∀ line, line ∈ lines ↔ ∃ name content, Globbed name ∧
    Function.update imports pgcoreName (some pgcore) name = some content ∧ line ∈ content

/-- What is recorded under any other name that the shell lists is read. -/
theorem ReadsImports.subset {imports : Str → Option (List Str)} {pgcore lines content : List Str} {name : Str}
    (h : ReadsImports imports pgcore lines) (hcore : name ≠ pgcoreName) (hglob : Globbed name)
    (hname : imports name = some content) : content ⊆ lines := by
  intro line hline
  refine (h line).mpr ⟨name, content, hglob, ?_, hline⟩
  rw [Function.update_of_ne hcore, hname]

/-- With one module recorded, and none in the core, what is read is what the module imports. -/
theorem readsImports_one (H : BuildHost γ) {f : PgFile γ} (hcore : f.stem ≠ pgcoreName) (hglob : Globbed f.stem) :
    ReadsImports (recordImports H (fun _ => none) f) [] (importsOf H f) := by
  intro line
  unfold recordImports
  constructor
  · refine fun hline => ⟨f.stem, _, hglob, ?_, hline⟩
    rw [Function.update_of_ne hcore, Function.update_self]
  · rintro ⟨name, content, -, hcontent, hline⟩
    by_cases hname : name = pgcoreName
    · rw [hname, Function.update_self] at hcontent
      rw [← Option.some.inj hcontent] at hline
      cases hline
    · rw [Function.update_of_ne hname] at hcontent
      by_cases hstem : name = f.stem
      · rw [hstem, Function.update_self] at hcontent
        rwa [← Option.some.inj hcontent] at hline
      · rw [Function.update_of_ne hstem] at hcontent
        cases hcontent

/-- Modules of one name have one dump. -/
def StemsDiffer (H : BuildHost γ) (known : PgFile γ → Prop) : Prop :=
  ∀ f g, known f → known g → isModule f.path = true → isModule g.path = true → f.stem = g.stem →
    H.objdump f.content = H.objdump g.content

/-- **The core is linked to export what packed modules import**, if it has it and it is not of the client library. A
module that is named `pgcore`, or whose name starts with a dot, is not among those that are read. -/
theorem packed_modules_served (h : Reaches (Builds H) d₀ is d) (hstems : StemsDiffer H (Known d₀ is))
    {written : List (Str × List (PgFile γ))} (hwritten : d.written = d₀.written ++ written)
    {w : Str × List (PgFile γ)} (hw : w ∈ written) {f : PgFile γ} (hf : f ∈ modules w.2) {m : SideModule}
    (hdump : H.objdump f.content = m.dump.lines) (hcore : f.stem ≠ pgcoreName) (hglob : Globbed f.stem)
    {pgcore lines : List Str} (hlines : ReadsImports d.imports pgcore lines) {core : List ExportEntry}
    (dump : SectionDump exportSection (core.map ExportEntry.text)) (pgdump : List Str) {listed : List Str}
    (hlisted : listed.Perm (commonSymbols lines (getsyms true false pgdump dump.lines).1))
    {e : ImportEntry} (he : e ∈ m.imports) (hkept : ¬e.Filtered) {x : ExportEntry} (hx : x ∈ core)
    (hdot : ¬x.Dotted) (hkept' : ¬x.Filtered) (hsymbol : x.symbol = e.symbol)
    (hclient : '_' :: e.symbol ∉ clientSymbols) : '_' :: e.symbol ∈ linkSymbols listed := by
  obtain ⟨-, written', hwritten', hpacked⟩ := builds_record h
  obtain rfl : written = written' := List.append_cancel_left (hwritten.symm.trans hwritten')
  obtain ⟨hknown, g, hg, hg', hstem, himports⟩ := hpacked w hw f hf
  -- the file of imports is of this module, or of one with the same dump
  have hsame := hstems g f hg hknown hg' (List.mem_filter.mp hf).2 hstem
  have hfile : importsOf H g = (getsyms false false [] m.dump.lines).1 := by
    rw [importsOf, hsame, hdump]
  obtain ⟨F, hF⟩ := exists_ident_import e
  have himport := hlines.subset hcore hglob himports (hfile ▸ mem_getsyms_imports m he hkept)
  have hexport := mem_exportLines dump pgdump hx hdot hkept'
  rw [hF] at himport hclient ⊢
  rw [hsymbol, hF] at hexport
  exact mem_linkSymbols hlisted himport hexport hclient

/-- The file of a module that imports `palloc` and `pfree`. -/
def memoryFile : PgFile (List Str) := ⟨"/lib/postgresql/vector.so".toList, false, memoryModule.dump.lines⟩

/-- The module is installed and packed, and the core is linked to export `pfree`. -/
theorem packed_modules_served_memory : ∃ d : Dist (List Str), ∃ name,
    Reaches (Builds plainHost) plainDist [.install memoryFile, .pack ⟨false, false⟩] d ∧
    d.written = [(name, [memoryFile])] ∧ d.tree.files = plainDist.tree.files ∧
    '_' :: pfree.text ∈ linkSymbols (commonSymbols (importsOf plainHost memoryFile)
      (getsyms true false [] memoryDump.lines).1) := by
  have hrun := reaches_next plainHost plainDist [.install memoryFile, .pack ⟨false, false⟩]
  generalize hd : [BuildStep.install memoryFile, .pack ⟨false, false⟩].foldl (Dist.next plainHost) plainDist = d at hrun
  have hwritten : d.written = [("vector".toList, [memoryFile])] := by
    rw [← hd]
    decide +kernel
  have htree : d.tree.files = plainDist.tree.files := by
    rw [← hd]
    decide +kernel
  have himports : d.imports = recordImports plainHost (fun _ => none) memoryFile := by
    have hmodules : modules ((plainDist.tree.put memoryFile).files.filter
        (Packable plainHost (installedPaths false plainDist.installed))) = [memoryFile] := by decide +kernel
    rw [← hd, List.foldl_cons, List.foldl_cons, List.foldl_nil, Dist.next, Dist.next, pack_imports]
    exact congrArg (List.foldl (recordImports plainHost) fun _ => none) hmodules
  have hstems : StemsDiffer plainHost (Known plainDist [.install memoryFile, .pack ⟨false, false⟩]) := by
    have hknown : ∀ g, Known plainDist [.install memoryFile, .pack ⟨false, false⟩] g → isModule g.path = true →
        g = memoryFile := by
      rintro g (hg | hg) hmodule
      · rw [List.mem_singleton.mp hg] at hmodule
        exact absurd hmodule (by decide +kernel)
      · simpa using hg
    intro f g hf hg hfm hgm _
    rw [hknown f hf hfm, hknown g hg hgm]
  have hcore : memoryFile.stem ≠ pgcoreName := by decide +kernel
  have hglob : Globbed memoryFile.stem := by decide +kernel
  have hlines : ReadsImports d.imports [] (importsOf plainHost memoryFile) := by
    rw [himports]
    exact readsImports_one plainHost hcore hglob
  refine ⟨d, "vector".toList, hrun, hwritten, htree, ?_⟩
  refine packed_modules_served hrun hstems hwritten (List.mem_singleton_self _) (f := memoryFile) (m := memoryModule)
    (by decide +kernel) rfl hcore hglob hlines memoryDump [] (.refl _)
    (e := .func numberEight numberSeven pfreeName envModule pfree) ?_ ?_
    (x := .func numberEight pfreeName pfree) ?_ ?_ ?_ rfl (by decide +kernel)
  · exact List.mem_cons_of_mem _ (List.mem_singleton_self _)
  · exact (by decide +kernel : ¬Spaced (strip isBad (afterDot pfreeName.text)))
  · exact List.mem_cons_of_mem _ (List.mem_singleton_self _)
  · exact (by decide +kernel : '.' ∉ pfreeName.text)
  · exact (by decide +kernel : ¬Spaced (strip isBad pfreeName.text))

end PgliteBuild
