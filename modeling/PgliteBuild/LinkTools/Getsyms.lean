import PgliteBuild.Foundation.PyString

/-! # getsyms.py

The script reads a `wasm-objdump`, records the lines of one section, takes a symbol out of each and prints the
symbols with an underscore. An exception while a symbol is taken out drops the entry. -/

namespace PgliteBuild

open PyString

/-- The characters that `str.strip` takes off by default. -/
def isSpace (c : Char) : Bool :=
  c.toNat ∈ [0x9, 0xa, 0xb, 0xc, 0xd, 0x1c, 0x1d, 0x1e, 0x1f, 0x20, 0x85, 0xa0, 0x1680, 0x2000, 0x2001, 0x2002,
    0x2003, 0x2004, 0x2005, 0x2006, 0x2007, 0x2008, 0x2009, 0x200a, 0x2028, 0x2029, 0x202f, 0x205f, 0x3000]

/-- `badchars`. -/
def isBad (c : Char) : Bool := c ∈ ['"', '<', '>', ' ']

/-- What the last argument of the script decides. -/
structure Section where
  start : Str
  stop : Str
  way : Str

/-- With an argument that starts with `export`. -/
def exportSection : Section := ⟨"Export[".toList, "Start:".toList, ['-', '>', ' ']⟩

/-- With any other argument. -/
def importSection : Section := ⟨"Import[".toList, "Function[".toList, ['<', '-', ' ']⟩

/-- The loop over the lines of the dump: the lines of the section. -/
def recordSection (sec : Section) : Bool → List Str → List Str
  | _, [] => []
  | recording, line :: lines =>
      let line := strip isSpace line
      if line = [] then recordSection sec recording lines
      -- an empty line is skipped also inside the section
      else if recording then
        if sec.stop.isPrefixOf line then [] else line :: recordSection sec true lines
      -- entries of the sections before this one
      else if line.head? = some '-' then recordSection sec false lines
      else recordSection sec (sec.start.isPrefixOf line) lines

/-- The kinds of entries: `def`, `var`, `mem`, `tbl`. -/
inductive Kind where
  | func
  | global
  | memory
  | table
  | other
  deriving DecidableEq, Repr

/-- `"- func["`. -/
def funcStart : Str := ['-', ' ', 'f', 'u', 'n', 'c', '[']

/-- `"- global["`. -/
def globalStart : Str := ['-', ' ', 'g', 'l', 'o', 'b', 'a', 'l', '[']

/-- The tests on `typ`. -/
def kindOf (typ : Str) : Kind :=
  if funcStart.isPrefixOf typ then .func
  else if globalStart.isPrefixOf typ then .global
  else if "- memory[".toList.isPrefixOf typ then .memory
  else if "- table[".toList.isPrefixOf typ then .table
  else .other

/-- The loop over `clean`, which cuts both names behind a dot or else behind `" <"`; `none` is an unpacking
that fails. -/
def cleanNames (left right : Str) : Option (Str × Str) :=
  -- a failing unpacking on either side drops the entry
  if 0 ≤ find left ['.'] then
    (rsplitOnce ['.'] left).bind fun l => (rsplitOnce ['.'] right).map fun r => (l.2, r.2)
  else if 0 ≤ find left [' ', '<'] then
    (rsplitOnce [' ', '<'] left).bind fun l => (rsplitOnce ['.'] right).map fun r => (l.2, r.2)
  else some (left, right)

/-- From the tests for `=` on: the symbol of the entry, if it is reported. -/
def report (verbose : Bool) (left right : Str) : Option Str :=
  -- an import without a debug name has only `sig=` left of the arrow
  let left := if 0 < find left ['='] then right else left
  let left := if 0 < find left ['='] then [] else left
  let left := if left = [] then right else left
  let name := fun left => if right = [] then left else right
  if 0 < find left ['='] then some (name [])
  -- a C++ name, which only the verbose run drops
  else if 0 < find left [':', ':'] then if verbose then none else some (name left)
  else if 0 < find left [' '] then none
  else some (name left)

/-- The `try` block: the symbol of a header, if no exception and no `continue` drops it. -/
def symbolOf (way : Str) (verbose : Bool) (header : Str) : Option Str :=
  (rsplitOnce way header).bind fun parts =>
    (cleanNames (strip isBad parts.1) (strip isBad parts.2)).bind fun names =>
      -- `clean` is true by now, or still the last string of the loop
      let left := strip isBad names.1
      let right := if 0 < find names.2 ['.'] then (rsplitOnce ['.'] names.2).map Prod.snd else some names.2
      right.bind fun right => report verbose left (strip isBad right)

/-- `REPORT.append`, where the symbol is not reported yet. -/
def addSymbol (found : List Str) : Option Str → List Str
  | some sym => if sym ∈ found then found else found ++ [sym]
  | none => found

/-- One round of the loop over the entries; `none` is the exception of `line.split`. -/
def addEntry (way : Str) (verbose : Bool) (found : List Str) (line : Str) : Option (List Str) :=
  (splitOnce [']', ' '] line).map fun parts =>
    if kindOf parts.1 = .func ∨ kindOf parts.1 = .global then addSymbol found (symbolOf way verbose parts.2)
    else found

/-- What the script prints before it reads the dump: nothing for imports, else the lines of `PGDUMP`. -/
def pgdumpLines (exporting : Bool) (pgdump : List Str) : List Str :=
  if exporting then
    ((pgdump.map (strip fun c => c ∈ [';', '\n', '\r'])).filter (· ≠ [])).map ('_' :: ·)
  else []

/-- The output of the script, and whether it ended without an exception. -/
def getsyms (exporting verbose : Bool) (pgdump objdump : List Str) : List Str × Bool :=
  let sec := if exporting then exportSection else importSection
  match (recordSection sec false objdump).foldlM (addEntry sec.way verbose) [] with
  | some found => (pgdumpLines exporting pgdump ++ found.map ('_' :: ·), true)
  | none => (pgdumpLines exporting pgdump, false)

end PgliteBuild
