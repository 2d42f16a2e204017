import PgliteBuild.LinkTools.Symbols
import Mathlib.Data.List.Dedup
import Mathlib.Data.List.Lex
import Mathlib.Data.Char

/-! # linkimports.sh

The Python part of the script, which decides what the core is linked to export for its side modules: the symbols that
the side modules import and the core has, and a fixed list of the core's own interface, but none of the client library.
The set of common symbols comes in no particular order; what is printed does not depend on it. -/

namespace PgliteBuild

open PyString

/-! ## The script -/

/-- `set(map(str.strip, file.readlines()))`. -/
def readSymbols (file : List Str) : List Str := (file.map (strip isSpace)).dedup

/-- The symbols of the first literal of the script: the interface of the core. -/
def interfaceSymbols : List Str :=
  ["", "", "_clear_error", "_get_buffer_addr", "_get_buffer_size", "_get_channel", "_interactive_one",
    "_interactive_read", "_interactive_write", "_pgl_backend", "_pgl_closed", "_pgl_initdb", "_pgl_shutdown",
    "_use_wire", "", "_main", "", "_ErrorContext", "_check_function_bodies", "_clock_gettime",
    "_CurrentMemoryContext", "___cxa_throw", "_error_context_stack", "_getenv", "_lowerstr", "", "_readstoplist",
    "_searchstoplist", "_setenv", "_shmem_request_hook", "_shmem_startup_hook", "_stderr",
    "_TopMemoryContext"].map String.toList

/-- The symbols of the second literal: the client library. -/
def clientSymbols : List Str :=
  ["", "_PQcancelCreate", "_PQcancelErrorMessage", "_PQcancelFinish", "_PQcancelPoll", "_PQcancelSocket",
    "_PQcancelStart", "_PQclear", "_PQcmdStatus", "_PQconnectPoll", "_PQconnectStartParams",
    "_PQconnectionUsedPassword", "_PQconsumeInput", "_PQerrorMessage", "_PQfinish", "_PQgetResult", "_PQgetisnull",
    "_PQgetvalue", "_PQisBusy", "_PQnfields", "_PQntuples", "_PQresultErrorField", "_PQresultStatus",
    "_PQsendQuery", "_PQserverVersion", "_PQsetSingleRowMode", "_PQsocket", "_PQstatus", "_pgresStatus", "",
    "_PQbackendPID", "_PQconninfo", "_PQconninfoFree", "_PQconninfoParse", "_PQendcopy",
    "_PQescapeIdentifier"].map String.toList

/-- The two symbols that the script asks for at its end. -/
def tempRetSymbols : List Str := ["_getTempRet0", "getTempRet0"].map String.toList

/-- One round of the first loop: append a symbol that is missing. -/
def addMissing (matched : List Str) (sym : Str) : List Str :=
  if sym ≠ [] ∧ matched.contains sym = false then matched ++ [sym] else matched

/-- One round of the second loop: remove a symbol. -/
def removeSymbol (matched : List Str) (sym : Str) : List Str :=
  if sym ≠ [] ∧ matched.contains sym = true then matched.erase sym else matched

/-- `matches.sort()`. -/
def sortSymbols (matched : List Str) : List Str := matched.mergeSort fun a b => decide (a ≤ b)

/-- What the script prints, one line for each symbol, for the common symbols in the order in which the set lists
them. -/
def linkSymbols (common : List Str) : List Str :=
  let matched := sortSymbols (interfaceSymbols.foldl addMissing common)
  let matched := clientSymbols.foldl removeSymbol matched
  tempRetSymbols.foldl addMissing matched

/-- `imports.intersection(exports)`, in one of its orders. -/
def commonSymbols (imports exports : List Str) : List Str :=
  (readSymbols imports).filter (readSymbols exports).contains

/-! ## What is printed -/

/-- A symbol is appended once. -/
theorem nodup_addMissing {matched : List Str} (h : matched.Nodup) (sym : Str) : (addMissing matched sym).Nodup := by
  unfold addMissing
  split_ifs with hsym
  · refine List.nodup_append.mpr ⟨h, List.nodup_singleton sym, fun a ha b hb heq => ?_⟩
    rw [heq, List.mem_singleton.mp hb, ← List.contains_iff_mem, hsym.2] at ha
    cases ha
  · exact h

/-- A symbol that is missing is appended, unless it is empty. -/
theorem mem_addMissing {matched : List Str} {sym x : Str} :
    x ∈ addMissing matched sym ↔ x ∈ matched ∨ x = sym ∧ sym ≠ [] := by
  unfold addMissing
  split_ifs with hsym
  · rw [List.mem_append, List.mem_singleton]
    exact or_congr_right ⟨fun h => ⟨h, hsym.1⟩, And.left⟩
  · refine ⟨.inl, ?_⟩
    rintro (h | ⟨rfl, hne⟩)
    · exact h
    · rw [← List.contains_iff_mem, ← Bool.not_eq_false]
      exact fun hnot => hsym ⟨hne, hnot⟩

/-- The loops skip the empty lines of their literals. -/
theorem mem_cons_named {x sym : Str} {syms : List Str} :
    x = sym ∧ sym ≠ [] ∨ x ∈ syms ∧ x ≠ [] ↔ x ∈ sym :: syms ∧ x ≠ [] := by
  rw [List.mem_cons]
  constructor
  · rintro (⟨rfl, hne⟩ | ⟨hx, hne⟩)
    · exact ⟨.inl rfl, hne⟩
    · exact ⟨.inr hx, hne⟩
  · rintro ⟨rfl | hx, hne⟩
    · exact .inl ⟨rfl, hne⟩
    · exact .inr ⟨hx, hne⟩

/-- The first loop adds the symbols that are named, each once. -/
theorem addMissing_foldl (syms : List Str) {matched : List Str} (h : matched.Nodup) :
    (syms.foldl addMissing matched).Nodup ∧
      ∀ x, x ∈ syms.foldl addMissing matched ↔ x ∈ matched ∨ x ∈ syms ∧ x ≠ [] := by
  induction syms generalizing matched with
  | nil => exact ⟨h, by simp⟩
  | cons sym syms ih =>
      obtain ⟨hnodup, hmem⟩ := ih (nodup_addMissing h sym)
      refine ⟨hnodup, fun x => ?_⟩
      rw [List.foldl_cons, hmem, mem_addMissing, or_assoc, mem_cons_named]

/-- The second loop removes the symbols that are named. -/
theorem removeSymbol_foldl (syms : List Str) {matched : List Str} (h : matched.Nodup) :
    (syms.foldl removeSymbol matched).Nodup ∧
      ∀ x, x ∈ syms.foldl removeSymbol matched ↔ x ∈ matched ∧ ¬(x ∈ syms ∧ x ≠ []) := by
  induction syms generalizing matched with
  | nil => exact ⟨h, by simp⟩
  | cons sym syms ih =>
      have hone : (removeSymbol matched sym).Nodup ∧
          ∀ x, x ∈ removeSymbol matched sym ↔ x ∈ matched ∧ ¬(x = sym ∧ sym ≠ []) := by
        unfold removeSymbol
        split_ifs with hsym
        · refine ⟨h.erase sym, fun x => ?_⟩
          rw [h.mem_erase_iff, and_comm]
          refine and_congr_right fun _ => ⟨fun hne heq => hne heq.1, fun hnot heq => hnot ⟨heq, hsym.1⟩⟩
        · refine ⟨h, fun x => ⟨fun hx => ⟨hx, ?_⟩, And.left⟩⟩
          rintro ⟨rfl, hne⟩
          exact hsym ⟨hne, List.contains_iff_mem.mpr hx⟩
      obtain ⟨hnodup, hmem⟩ := ih hone.1
      refine ⟨hnodup, fun x => ?_⟩
      rw [List.foldl_cons, hmem, hone.2, and_assoc, ← not_or, mem_cons_named]

/-- Sorting forgets the order. -/
theorem sortSymbols_perm {matched matched' : List Str} (h : matched.Perm matched') :
    sortSymbols matched = sortSymbols matched' := by
  have hsorted : ∀ l : List Str, (sortSymbols l).Pairwise (· ≤ ·) := by
    intro l
    refine (List.pairwise_mergeSort ?_ ?_ l).imp of_decide_eq_true
    · intro a b c hab hbc
      exact decide_eq_true (le_trans (of_decide_eq_true hab) (of_decide_eq_true hbc))
    · intro a b
      simpa using le_total a b
  apply List.Perm.eq_of_pairwise
  · exact fun a b _ _ hab hba => le_antisymm hab hba
  · exact hsorted matched
  · exact hsorted matched'
  · exact (List.mergeSort_perm _ _).trans (h.trans (List.mergeSort_perm _ _).symm)

/-- What the script prints for a set of common symbols: each symbol once. -/
theorem linkSymbols_spec {common : List Str} (h : common.Nodup) :
    (linkSymbols common).Nodup ∧ ∀ x, x ∈ linkSymbols common ↔
      (x ∈ common ∨ x ∈ interfaceSymbols ∧ x ≠ []) ∧ ¬(x ∈ clientSymbols ∧ x ≠ []) ∨ x ∈ tempRetSymbols := by
  obtain ⟨hadded, hmem⟩ := addMissing_foldl interfaceSymbols h
  have hsorted : (sortSymbols (interfaceSymbols.foldl addMissing common)).Nodup :=
    (List.mergeSort_perm _ _).nodup_iff.mpr hadded
  obtain ⟨hremoved, hmem'⟩ := removeSymbol_foldl clientSymbols hsorted
  obtain ⟨hlast, hmem''⟩ := addMissing_foldl tempRetSymbols hremoved
  refine ⟨hlast, fun x => ?_⟩
  have hnamed : x ∈ tempRetSymbols ∧ x ≠ [] ↔ x ∈ tempRetSymbols := by
    refine and_iff_left_of_imp fun hx => ?_
    rintro rfl
    exact absurd hx (by decide)
  rw [linkSymbols, hmem'', hmem', sortSymbols, List.mem_mergeSort, hmem, hnamed]

/-- What the script prints does not depend on the order of the common symbols. -/
theorem linkSymbols_perm {common common' : List Str} (h : common.Nodup) (hperm : common'.Perm common) :
    linkSymbols common' = linkSymbols common := by
  have h' := hperm.nodup_iff.mpr h
  obtain ⟨hadded, hmem⟩ := addMissing_foldl interfaceSymbols h
  obtain ⟨hadded', hmem'⟩ := addMissing_foldl interfaceSymbols h'
  have hsame : (interfaceSymbols.foldl addMissing common').Perm (interfaceSymbols.foldl addMissing common) := by
    refine (List.perm_ext_iff_of_nodup hadded' hadded).mpr fun x => ?_
    rw [hmem, hmem', hperm.mem_iff]
  rw [linkSymbols, linkSymbols, sortSymbols_perm hsame]

/-- The common symbols are a set. -/
theorem nodup_commonSymbols (imports exports : List Str) : (commonSymbols imports exports).Nodup :=
  (List.nodup_dedup _).filter _

/-- The common symbols are imported and exported. -/
theorem mem_commonSymbols {imports exports : List Str} {x : Str} :
    x ∈ commonSymbols imports exports ↔ x ∈ readSymbols imports ∧ x ∈ readSymbols exports := by
  rw [commonSymbols, List.mem_filter, List.contains_iff_mem]

/-! ## From the dumps to the list -/

/-- A side module: its imports, and a dump of it. -/
structure SideModule where
  imports : List ImportEntry
  dump : SectionDump importSection (imports.map ImportEntry.text)

/-- The lines of the import files: what getsyms.py prints for each side module, and what other files hold. -/
def importLines (modules : List SideModule) (others : List Str) : List Str :=
  modules.flatMap (fun m => (getsyms false false [] m.dump.lines).1) ++ others

/-- A symbol of a line is the line. -/
theorem strip_symbol (F : Ident) : strip isSpace ('_' :: F.text) = '_' :: F.text := by
  have hword : ∀ c ∈ '_' :: F.text, c.isAlphanum = true ∨ c = '_' :=
    List.forall_mem_cons.mpr ⟨.inr rfl, F.chars⟩
  have hspaces : ∀ n ∈ [0x9, 0xa, 0xb, 0xc, 0xd, 0x1c, 0x1d, 0x1e, 0x1f, 0x20, 0x85, 0xa0, 0x1680, 0x2000, 0x2001,
      0x2002, 0x2003, 0x2004, 0x2005, 0x2006, 0x2007, 0x2008, 0x2009, 0x200a, 0x2028, 0x2029, 0x202f, 0x205f, 0x3000],
      ¬((Char.ofNat n).isAlphanum = true ∨ Char.ofNat n = '_') := by decide
  refine strip_eq_self (trimmed_of_forall fun c hc hspace => ?_)
  have hnot := hspaces c.toNat (of_decide_eq_true hspace)
  rw [Char.ofNat_toNat] at hnot
  exact hnot (hword c hc)

/-- getsyms.py prints the symbol of an import that is not filtered. -/
theorem mem_getsyms_imports (m : SideModule) {e : ImportEntry} (he : e ∈ m.imports) (hkept : ¬e.Filtered) :
    '_' :: e.symbol ∈ (getsyms false false [] m.dump.lines).1 := by
  have hrecord : recordSection importSection false m.dump.lines = m.imports.map ImportEntry.text :=
    recordSection_lines m.dump (by decide) (by decide) (by decide) (by decide)
      (List.forall_mem_map.mpr fun e _ => e.head_text)
  obtain ⟨found, hout, -, hmem⟩ := getsyms_eq false rfl addEntry_import hrecord []
  rw [hout]
  exact List.mem_map_of_mem ((hmem _).mpr ⟨e, he, ImportEntry.reported_eq_some.mpr ⟨hkept, rfl⟩⟩)

/-- The symbol of an export with a plain debug name is among the exports. -/
theorem mem_exportLines {core : List ExportEntry} (dump : SectionDump exportSection (core.map ExportEntry.text))
    (pgdump : List Str) {x : ExportEntry} (hx : x ∈ core) (hdot : ¬x.Dotted) (hkept : ¬x.Filtered) :
    '_' :: x.symbol ∈ (getsyms true false pgdump dump.lines).1 := by
  have hrecord : recordSection exportSection false dump.lines = core.map ExportEntry.text :=
    recordSection_lines dump (by decide) (by decide) (by decide) (by decide)
      (List.forall_mem_map.mpr fun e _ => e.head_text)
  obtain ⟨found, hout, -, hmem⟩ := getsyms_eq true rfl addEntry_export hrecord pgdump
  rw [hout]
  apply List.mem_append_right _
  exact List.mem_map_of_mem ((hmem _).mpr ⟨x, hx, ExportEntry.reported_eq_some hdot hkept⟩)

/-- A symbol of a file is read as it stands there. -/
theorem mem_readSymbols {file : List Str} {F : Ident} (h : '_' :: F.text ∈ file) :
    '_' :: F.text ∈ readSymbols file := by
  refine List.mem_dedup.mpr (List.mem_map.mpr ⟨_, h, strip_symbol F⟩)

/-- The symbol of an entry is an identifier. -/
theorem exists_ident_import (e : ImportEntry) : ∃ F : Ident, e.symbol = F.text := by
  cases e with
  | func i s N M F => exact ⟨F, rfl⟩
  | global i T b M F => exact ⟨F, rfl⟩

/-- A symbol that is imported and that the core has is printed, if it is not of the client library. -/
theorem mem_linkSymbols {imports exports order : List Str} (horder : order.Perm (commonSymbols imports exports))
    {F : Ident} (himport : '_' :: F.text ∈ imports) (hexport : '_' :: F.text ∈ exports)
    (hclient : '_' :: F.text ∉ clientSymbols) : '_' :: F.text ∈ linkSymbols order := by
  obtain ⟨-, hmem⟩ := linkSymbols_spec (horder.nodup_iff.mpr (nodup_commonSymbols imports exports))
  refine (hmem _).mpr (.inl ⟨.inl (horder.mem_iff.mpr ?_), fun h => hclient h.1⟩)
  exact mem_commonSymbols.mpr ⟨mem_readSymbols himport, mem_readSymbols hexport⟩

/-- What the core is linked to export, with the common symbols in some order. -/
structure Links (core : List ExportEntry) (exportLines : List Str) (modules : List SideModule) (others : List Str)
    (order : List Str) : Prop where
  /-- The order does not matter. -/
  sameOut : linkSymbols order = linkSymbols (commonSymbols (importLines modules others) exportLines)
  once : (linkSymbols order).Nodup
  exact : ∀ x, x ∈ linkSymbols order ↔
    (x ∈ readSymbols (importLines modules others) ∧ x ∈ readSymbols exportLines ∨ x ∈ interfaceSymbols ∧ x ≠ []) ∧
      ¬(x ∈ clientSymbols ∧ x ≠ []) ∨ x ∈ tempRetSymbols
  /-- A side module gets what it imports, if the core has it and it is not of the client library. -/
  serves : ∀ m ∈ modules, ∀ e ∈ m.imports, ¬e.Filtered → ∀ x ∈ core, ¬x.Dotted → ¬x.Filtered →
    x.symbol = e.symbol → '_' :: e.symbol ∉ clientSymbols → '_' :: e.symbol ∈ linkSymbols order

/-- **From the dumps of the core and of its side modules to what the core exports.** -/
theorem core_exports_imports {core : List ExportEntry} (dump : SectionDump exportSection (core.map ExportEntry.text))
    (pgdump : List Str) (modules : List SideModule) (others : List Str) {order : List Str}
    (horder : order.Perm
      (commonSymbols (importLines modules others) (getsyms true false pgdump dump.lines).1)) :
    Links core (getsyms true false pgdump dump.lines).1 modules others order := by
  have hcommon := nodup_commonSymbols (importLines modules others) (getsyms true false pgdump dump.lines).1
  obtain ⟨honce, hmem⟩ := linkSymbols_spec (horder.nodup_iff.mpr hcommon)
  refine ⟨linkSymbols_perm hcommon horder, honce, fun x => ?_, ?_⟩
  · rw [hmem, horder.mem_iff, mem_commonSymbols]
  · intro m hm e he hkept x hx hdot hkept' hsymbol hclient
    obtain ⟨F, hF⟩ := exists_ident_import e
    have himport : '_' :: e.symbol ∈ importLines modules others :=
      List.mem_append_left _ (List.mem_flatMap.mpr ⟨m, hm, mem_getsyms_imports m he hkept⟩)
    have hexport := mem_exportLines dump pgdump hx hdot hkept'
    rw [hF] at himport hclient ⊢
    rw [hsymbol, hF] at hexport
    exact mem_linkSymbols horder himport hexport hclient

/-- The identifier with these characters. -/
def Ident.ofText (text : Str) (hne : text ≠ []) (hchars : text.all (fun c => c.isAlphanum || c == '_') = true)
    (hhead : text.head?.all (fun c => !c.isDigit) = true) : Ident where
  text := text
  nonempty := hne
  chars := fun c hc => by simpa using List.all_eq_true.mp hchars c hc
  head := fun c hc => by simpa using (Option.all_eq_true _ _).mp hhead c hc

/-- The debug name with these characters. -/
def DebugName.ofText (text : Str)
    (hchars : text.all (fun c => decide (c ∉ ['"', '<', '>', '\n', '\r'])) = true) : DebugName where
  text := text
  chars := fun c hc => of_decide_eq_true (List.all_eq_true.mp hchars c hc)

/-- The symbol `palloc`. -/
def palloc : Ident := .ofText "palloc".toList (by decide) (by decide) (by decide)

/-- The symbol `pfree`. -/
def pfree : Ident := .ofText "pfree".toList (by decide) (by decide) (by decide)

/-- The number of `palloc`. -/
def numberSeven : Digits := ⟨['7'], List.all_eq_true.mp (by decide)⟩

/-- The number of `pfree`. -/
def numberEight : Digits := ⟨['8'], List.all_eq_true.mp (by decide)⟩

/-- The debug name of `palloc`. -/
def pallocName : DebugName := .ofText "palloc".toList (by decide)

/-- The debug name of `pfree`. -/
def pfreeName : DebugName := .ofText "pfree".toList (by decide)

/-- A core that exports `palloc` and `pfree`. -/
def memoryExports : List ExportEntry := [.func numberSeven pallocName palloc, .func numberEight pfreeName pfree]

/-- A dump of it. -/
def memoryDump : SectionDump exportSection (memoryExports.map ExportEntry.text) where
  before := []
  header := "Export[2]:\n".toList
  body := [" - func[7] <palloc> -> \"palloc\"\n".toList, " - func[8] <pfree> -> \"pfree\"\n".toList]
  closer := "Start:\n".toList
  rest := []
  before_skipped := by decide
  header_starts := by decide +kernel
  body_eq := by decide +kernel
  closer_stops := by decide +kernel

/-- A module that imports both. -/
def memoryModule : SideModule where
  imports := [.func numberSeven numberSeven pallocName envModule palloc,
    .func numberEight numberSeven pfreeName envModule pfree]
  dump :=
    { before := []
      header := "Import[2]:\n".toList
      body := [" - func[7] sig=7 <palloc> <- env.palloc\n".toList, " - func[8] sig=7 <pfree> <- env.pfree\n".toList]
      closer := "Function[2]:\n".toList
      rest := []
      before_skipped := by decide
      header_starts := by decide +kernel
      body_eq := by decide +kernel
      closer_stops := by decide +kernel }

/-- The module finds both, with the set listed in the other order. -/
theorem core_exports_memory : Links memoryExports (getsyms true false [] memoryDump.lines).1 [memoryModule] []
    ["_pfree".toList, "_palloc".toList] :=
  core_exports_imports memoryDump [] [memoryModule] [] (by decide +kernel)

end PgliteBuild
