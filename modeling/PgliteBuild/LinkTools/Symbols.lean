import PgliteBuild.LinkTools.Entries
import Mathlib.Data.List.Nodup

/-! # The symbols that getsyms.py prints

The loop over the recorded lines collects the symbols of the entries, each once. -/

namespace PgliteBuild

open PyString

/-! ## The report -/

/-- The symbol that an import adds to the report. -/
def ImportEntry.reported : ImportEntry → Option Str
  | func _ _ N _ F => if Spaced (strip isBad (afterDot N.text)) then none else some F.text
  | global _ _ _ _ F => some F.text

/-- The symbol that an export adds to the report. -/
def ExportEntry.reported : ExportEntry → Option Str
  | func _ N F => if '.' ∈ N.text ∨ Spaced (strip isBad N.text) then none else some F.text
  | global _ F => some F.text

/-- An entry of a function is cut behind its number. -/
theorem addEntry_func (way : Str) (found : List Str) (i : Digits) (header : Str) :
    addEntry way false found (funcStart ++ i.text ++ [']', ' '] ++ header) =
      some (addSymbol found (symbolOf way false header)) := by
  have hbracket : ']' ∉ funcStart ++ i.text := by
    simp [funcStart, i.not_mem (c := ']') (by decide)]
  have hkind : kindOf (funcStart ++ i.text) = .func :=
    if_pos (List.isPrefixOf_iff_prefix.mpr (List.prefix_append _ _))
  rw [addEntry, splitOnce_append hbracket, Option.map_some, if_pos (.inl hkind)]

/-- An entry of a global is cut behind its number. -/
theorem addEntry_global (way : Str) (found : List Str) (i : Digits) (header : Str) :
    addEntry way false found (globalStart ++ i.text ++ [']', ' '] ++ header) =
      some (addSymbol found (symbolOf way false header)) := by
  have hbracket : ']' ∉ globalStart ++ i.text := by
    simp [globalStart, i.not_mem (c := ']') (by decide)]
  have hkind : kindOf (globalStart ++ i.text) = .global := by
    -- the texts differ behind the dash
    have hfunc : ¬funcStart.isPrefixOf (globalStart ++ i.text) = true := by
      simp [funcStart, globalStart]
    exact (if_neg hfunc).trans (if_pos (List.isPrefixOf_iff_prefix.mpr (List.prefix_append _ _)))
  rw [addEntry, splitOnce_append hbracket, Option.map_some, if_pos (.inr hkind)]

/-- Imports stand behind an arrow to the left. -/
theorem importSection_way : importSection.way = ['<', '-', ' '] := rfl

/-- Exports stand behind an arrow to the right. -/
theorem exportSection_way : exportSection.way = ['-', '>', ' '] := rfl

/-- An import adds what it reports. -/
theorem addEntry_import (found : List Str) (e : ImportEntry) :
    addEntry importSection.way false found e.text = some (addSymbol found e.reported) := by
  rw [importSection_way]
  cases e with
  | func i s N M F =>
      have hentry := addEntry_func ['<', '-', ' '] found i (funcLeft s N ++ ['<', '-', ' '] ++ importRight M F)
      rwa [symbolOf_importFunc] at hentry
  | global i T b M F =>
      have hentry := addEntry_global ['<', '-', ' '] found i
        (globalLeft T b ++ ['<', '-', ' '] ++ importRight M F)
      rwa [symbolOf_importGlobal] at hentry

/-- An export adds what it reports. -/
theorem addEntry_export (found : List Str) (e : ExportEntry) :
    addEntry exportSection.way false found e.text = some (addSymbol found e.reported) := by
  rw [exportSection_way]
  cases e with
  | func i N F =>
      have hentry := addEntry_func ['-', '>', ' '] found i
        (['<'] ++ N.text ++ ['>', ' '] ++ ['-', '>', ' '] ++ exportRight F)
      rwa [symbolOf_exportFunc] at hentry
  | global i F =>
      have hentry := addEntry_global ['-', '>', ' '] found i ([] ++ ['-', '>', ' '] ++ exportRight F)
      rwa [symbolOf_exportGlobal] at hentry

section Report

variable {E : Type*} {way : Str} {text : E → Str} {reported : E → Option Str}

/-- The loop over the entries ends, with the symbols that they add. -/
theorem foldlM_addEntry (h : ∀ found e, addEntry way false found (text e) = some (addSymbol found (reported e)))
    (entries : List E) (found : List Str) : (entries.map text).foldlM (addEntry way false) found =
      some (entries.foldl (fun found e => addSymbol found (reported e)) found) := by
  induction entries generalizing found with
  | nil => rfl
  | cons e entries ih =>
      rw [List.map_cons, List.foldlM_cons, h]
      exact ih _

/-- A symbol is added behind the others if it is not among them. -/
theorem addSymbol_some (found : List Str) (sym : Str) :
    addSymbol found (some sym) = if sym ∈ found then found else found ++ [sym] := rfl

/-- The list holds what it held and the symbol that is added. -/
theorem mem_addSymbol {found : List Str} {r : Option Str} {sym : Str} :
    sym ∈ addSymbol found r ↔ sym ∈ found ∨ r = some sym := by
  cases r with
  | none => simp [addSymbol]
  | some x =>
      rw [addSymbol_some]
      split_ifs with hx
      · constructor
        · exact .inl
        · rintro (h | h)
          · exact h
          · exact Option.some.inj h ▸ hx
      · simp [eq_comm]

/-- Adding a symbol keeps the list free of duplicates. -/
theorem nodup_addSymbol {found : List Str} (h : found.Nodup) (r : Option Str) : (addSymbol found r).Nodup := by
  cases r with
  | none => exact h
  | some x =>
      rw [addSymbol_some]
      split_ifs with hx
      · exact h
      · refine List.nodup_append.mpr ⟨h, List.nodup_singleton x, fun a ha b hb heq => hx ?_⟩
        rwa [heq, List.mem_singleton.mp hb] at ha

/-- The report has the symbols of the entries, each once. -/
theorem report_foldl (reported : E → Option Str) (entries : List E) {found : List Str} (hfound : found.Nodup) :
    (entries.foldl (fun found e => addSymbol found (reported e)) found).Nodup ∧
      ∀ sym, sym ∈ entries.foldl (fun found e => addSymbol found (reported e)) found ↔
        sym ∈ found ∨ ∃ e ∈ entries, reported e = some sym := by
  induction entries generalizing found with
  | nil => exact ⟨hfound, by simp⟩
  | cons e entries ih =>
      obtain ⟨hnodup, hmem⟩ := ih (nodup_addSymbol hfound (reported e))
      refine ⟨hnodup, fun sym => ?_⟩
      rw [List.foldl_cons, hmem, mem_addSymbol, or_assoc, List.exists_mem_cons_iff]

end Report

/-! ## The recorded section -/

/-- A dump with a section of the given lines: other lines, the header of the section, its lines with the
whitespace around them, and a line that ends it. -/
structure SectionDump (sec : Section) (texts : List Str) where
  before : List Str
  header : Str
  body : List Str
  closer : Str
  rest : List Str
  before_skipped : ∀ line ∈ before, ¬sec.start <+: strip isSpace line
  header_starts : sec.start <+: strip isSpace header
  body_eq : body.map (strip isSpace) = texts
  closer_stops : sec.stop <+: strip isSpace closer

/-- The lines of a dump. -/
def SectionDump.lines {sec : Section} {texts : List Str} (dump : SectionDump sec texts) : List Str :=
  dump.before ++ dump.header :: (dump.body ++ dump.closer :: dump.rest)

section Record

variable {sec : Section} {line : Str} {lines : List Str}

/-- A line before the section is skipped. -/
theorem recordSection_skip (h : ¬sec.start <+: strip isSpace line) : recordSection sec false (line :: lines) =
    recordSection sec false lines := by
  have hstart : sec.start.isPrefixOf (strip isSpace line) = false := by
    rw [Bool.eq_false_iff, ne_eq, List.isPrefixOf_iff_prefix]
    exact h
  rw [recordSection]
  simp [hstart]

/-- The header of the section starts the recording. -/
theorem recordSection_header (hnil : sec.start ≠ []) (hdash : sec.start.head? ≠ some '-')
    (h : sec.start <+: strip isSpace line) :
    recordSection sec false (line :: lines) = recordSection sec true lines := by
  obtain ⟨t, ht⟩ := h
  cases hs : sec.start with
  | nil => exact absurd hs hnil
  | cons c start =>
      have hc : c ≠ '-' := by
        rintro rfl
        exact hdash (by rw [hs]; rfl)
      have hstart : sec.start.isPrefixOf (strip isSpace line) = true :=
        List.isPrefixOf_iff_prefix.mpr ⟨t, ht⟩
      rw [hs] at ht
      rw [recordSection, hstart, ← ht]
      simp [hc]

/-- A line of the section is recorded. -/
theorem recordSection_line (hnil : strip isSpace line ≠ []) (h : ¬sec.stop <+: strip isSpace line) :
    recordSection sec true (line :: lines) = strip isSpace line :: recordSection sec true lines := by
  have hstop : sec.stop.isPrefixOf (strip isSpace line) = false := by
    rw [Bool.eq_false_iff, ne_eq, List.isPrefixOf_iff_prefix]
    exact h
  rw [recordSection]
  simp [hnil, hstop]

/-- The line behind the section ends the loop. -/
theorem recordSection_stop (hnil : sec.stop ≠ []) (h : sec.stop <+: strip isSpace line) :
    recordSection sec true (line :: lines) = [] := by
  have hne : strip isSpace line ≠ [] := by
    intro heq
    rw [heq, List.prefix_nil] at h
    exact hnil h
  rw [recordSection]
  simp [hne, List.isPrefixOf_iff_prefix.mpr h]

/-- **The lines of the section are what is recorded**, when each starts with a dash. -/
theorem recordSection_lines {texts : List Str} (dump : SectionDump sec texts) (hstart : sec.start.head? ≠ some '-')
    (hstartNil : sec.start ≠ []) (hstop : sec.stop.head? ≠ some '-') (hstopNil : sec.stop ≠ [])
    (htexts : ∀ t ∈ texts, t.head? = some '-') : recordSection sec false dump.lines = texts := by
  obtain ⟨before, header, body, closer, rest, hbefore, hheader, hbody, hcloser⟩ := dump
  show recordSection sec false (before ++ header :: (body ++ closer :: rest)) = texts
  -- an entry starts with a dash, so that it neither is empty nor ends the section
  have hrecorded : ∀ body : List Str, (∀ line ∈ body, (strip isSpace line).head? = some '-') →
      recordSection sec true (body ++ closer :: rest) = body.map (strip isSpace) := by
    intro body hdash
    induction body with
    | nil => exact recordSection_stop hstopNil hcloser
    | cons line body ih =>
        have hline : (strip isSpace line).head? = some '-' := hdash line List.mem_cons_self
        have hnil : strip isSpace line ≠ [] := by
          intro heq
          rw [heq] at hline
          cases hline
        have hno : ¬sec.stop <+: strip isSpace line := by
          rintro ⟨t, ht⟩
          rw [← ht, List.head?_append_of_ne_nil _ hstopNil] at hline
          exact hstop hline
        rw [List.cons_append, recordSection_line hnil hno, ih fun l hl => hdash l (List.mem_cons_of_mem line hl),
          List.map_cons]
  -- the lines before the header do not start the recording
  have hskipped : recordSection sec false (before ++ header :: (body ++ closer :: rest)) =
      recordSection sec true (body ++ closer :: rest) := by
    induction before with
    | nil => exact recordSection_header hstartNil hstart hheader
    | cons line before ih =>
        rw [List.cons_append, recordSection_skip (hbefore line List.mem_cons_self),
          ih fun l hl => hbefore l (List.mem_cons_of_mem line hl)]
  rw [hskipped, hrecorded body, hbody]
  intro line hline
  refine htexts _ ?_
  rw [← hbody]
  exact List.mem_map_of_mem hline

end Record

/-! ## What the script prints -/

/-- The script prints each symbol with an entry that is not filtered once, and nothing else. -/
structure PrintsImports (entries : List ImportEntry) (out : List Str × Bool) : Prop where
  done : out.2 = true
  once : out.1.Nodup
  exact : ∀ line, line ∈ out.1 ↔ ∃ e ∈ entries, ¬e.Filtered ∧ line = '_' :: e.symbol

/-- The script prints the lines of `PGDUMP` and behind them each symbol with an entry whose debug name has no
dot and is not filtered. -/
structure PrintsExports (entries : List ExportEntry) (pgdump : List Str) (out : List Str × Bool) : Prop where
  done : out.2 = true
  behind : ∃ rest, out.1 = pgdumpLines true pgdump ++ rest ∧
    ∀ e ∈ entries, ¬e.Dotted → ¬e.Filtered → '_' :: e.symbol ∈ rest

/-- An import reports its symbol if it is not filtered. -/
theorem ImportEntry.reported_eq_some {e : ImportEntry} {sym : Str} :
    e.reported = some sym ↔ ¬e.Filtered ∧ e.symbol = sym := by
  cases e with
  | func i s N M F =>
      show (if Spaced (strip isBad (afterDot N.text)) then none else some F.text) = some sym ↔
        ¬Spaced (strip isBad (afterDot N.text)) ∧ F.text = sym
      rw [Option.ite_none_left_eq_some, Option.some.injEq]
  | global i T b M F =>
      show some F.text = some sym ↔ ¬False ∧ F.text = sym
      rw [Option.some.injEq, not_false_eq_true, true_and]

/-- An export with a plain debug name reports its symbol if it is not filtered. -/
theorem ExportEntry.reported_eq_some {e : ExportEntry} (hdot : ¬e.Dotted) (h : ¬e.Filtered) :
    e.reported = some e.symbol := by
  cases e with
  | func i N F => exact if_neg (not_or.mpr ⟨hdot, h⟩)
  | global i F => rfl

/-- The text of an import starts with a dash. -/
theorem ImportEntry.head_text (e : ImportEntry) : e.text.head? = some '-' := by
  cases e <;> rfl

/-- The text of an export starts with a dash. -/
theorem ExportEntry.head_text (e : ExportEntry) : e.text.head? = some '-' := by
  cases e <;> rfl

/-- The output of the script, when the recorded lines are those of some entries. -/
theorem getsyms_eq {E : Type*} {text : E → Str} {reported : E → Option Str} (exporting : Bool) {sec : Section}
    (hsec : (if exporting then exportSection else importSection) = sec)
    (hentry : ∀ found e, addEntry sec.way false found (text e) = some (addSymbol found (reported e)))
    {entries : List E} {objdump : List Str} (hrecord : recordSection sec false objdump = entries.map text)
    (pgdump : List Str) :
    ∃ found : List Str, getsyms exporting false pgdump objdump =
      (pgdumpLines exporting pgdump ++ found.map ('_' :: ·), true) ∧
      found.Nodup ∧ ∀ sym, sym ∈ found ↔ ∃ e ∈ entries, reported e = some sym := by
  obtain ⟨hnodup, hmem⟩ := report_foldl reported entries List.nodup_nil
  refine ⟨_, ?_, hnodup, fun sym => (hmem sym).trans (or_iff_right List.not_mem_nil)⟩
  simp only [getsyms, hsec, hrecord, foldlM_addEntry hentry]

/-- **What getsyms.py prints, for imports and for exports.** -/
theorem getsyms_prints (imports : List ImportEntry)
    (importDump : SectionDump importSection (imports.map ImportEntry.text))
    (exports : List ExportEntry) (exportDump : SectionDump exportSection (exports.map ExportEntry.text))
    (pgdump : List Str) :
    PrintsImports imports (getsyms false false pgdump importDump.lines) ∧
      PrintsExports exports pgdump (getsyms true false pgdump exportDump.lines) := by
  constructor
  · have hrecord : recordSection importSection false importDump.lines = imports.map ImportEntry.text :=
      recordSection_lines importDump (by decide) (by decide) (by decide) (by decide)
        (List.forall_mem_map.mpr fun e _ => e.head_text)
    obtain ⟨found, hout, hnodup, hmem⟩ := getsyms_eq false rfl addEntry_import hrecord pgdump
    rw [hout]
    refine ⟨rfl, ?_, fun line => ?_⟩
    -- the underscore in front keeps different symbols apart
    · exact hnodup.map fun a b h => (List.cons.inj h).2
    · show line ∈ [] ++ found.map ('_' :: ·) ↔ _
      rw [List.nil_append, List.mem_map]
      simp only [hmem, ImportEntry.reported_eq_some]
      constructor
      · rintro ⟨sym, ⟨e, he, hkept, rfl⟩, rfl⟩
        exact ⟨e, he, hkept, rfl⟩
      · rintro ⟨e, he, hkept, rfl⟩
        exact ⟨e.symbol, ⟨e, he, hkept, rfl⟩, rfl⟩
  · have hrecord : recordSection exportSection false exportDump.lines = exports.map ExportEntry.text :=
      recordSection_lines exportDump (by decide) (by decide) (by decide) (by decide)
        (List.forall_mem_map.mpr fun e _ => e.head_text)
    obtain ⟨found, hout, -, hmem⟩ := getsyms_eq true rfl addEntry_export hrecord pgdump
    rw [hout]
    refine ⟨rfl, _, rfl, fun e he hdot hkept => ?_⟩
    exact List.mem_map_of_mem ((hmem _).mpr ⟨e, he, ExportEntry.reported_eq_some hdot hkept⟩)

/-- The debug name `operator new`. -/
def operatorNewName : DebugName where
  text := ['o', 'p', 'e', 'r', 'a', 't', 'o', 'r', ' ', 'n', 'e', 'w']
  chars := by
    simp only [List.forall_mem_cons, List.not_mem_nil, false_implies, implies_true, and_true]
    decide

/-- The module `env`. -/
def envModule : ModuleName where
  text := ['e', 'n', 'v']
  nonempty := by decide
  chars := by
    simp only [List.forall_mem_cons, List.not_mem_nil, false_implies, implies_true, and_true]
    decide
  head := by
    rintro c ⟨rfl⟩
    decide

/-- The symbol `_Znwm`. -/
def znwm : Ident where
  text := ['_', 'Z', 'n', 'w', 'm']
  nonempty := by decide
  chars := by
    simp only [List.forall_mem_cons, List.not_mem_nil, false_implies, implies_true, and_true]
    decide
  head := by
    rintro c ⟨rfl⟩
    decide

/-- An import of the allocator of C++. -/
def operatorNew : ImportEntry :=
  .func ⟨['0'], List.all_eq_true.mp (by decide)⟩ ⟨['1'], List.all_eq_true.mp (by decide)⟩ operatorNewName
    envModule znwm

/-- A dump with this import. -/
def operatorNewDump : SectionDump importSection ([operatorNew].map ImportEntry.text) where
  before := ["Section Details:\n".toList]
  header := "Import[1]:\n".toList
  body := [" - func[0] sig=1 <operator new> <- env._Znwm\n".toList]
  closer := "Function[1]:\n".toList
  rest := []
  before_skipped := by decide +kernel
  header_starts := by decide +kernel
  body_eq := by decide +kernel
  closer_stops := by decide +kernel

/-- The import of `operator new` is not printed, for the space in its debug name. -/
theorem not_printed_operatorNew :
    ¬∀ line, line ∈ (getsyms false false [] operatorNewDump.lines).1 ↔
      ∃ e ∈ [operatorNew], line = '_' :: e.symbol := by
  intro h
  -- the debug name has a space, so that the script drops the entry
  have hprinted := (h ('_' :: operatorNew.symbol)).mpr ⟨operatorNew, List.mem_singleton_self _, rfl⟩
  have hempty : (getsyms false false [] operatorNewDump.lines).1 = [] := by decide +kernel
  rw [hempty] at hprinted
  cases hprinted

end PgliteBuild
