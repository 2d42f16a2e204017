import PgliteBuild.LinkTools.Getsyms

/-! # The entries of a dump

The lines of imports and exports, and the symbol that the script takes out of each: that of every global, and
of every function but those whose debug name has a space, or a dot where it is exported. -/

namespace PgliteBuild

open PyString

/-! ## Entries -/

/-- A C identifier. -/
structure Ident where
  text : Str
  nonempty : text ≠ []
  chars : ∀ c ∈ text, c.isAlphanum = true ∨ c = '_'
  head : ∀ c ∈ text.head?, ¬c.isDigit = true

/-- A number. -/
structure Digits where
  text : Str
  chars : ∀ c ∈ text, c.isDigit = true

/-- A value type, as `i32`. -/
structure ValType where
  text : Str
  nonempty : text ≠ []
  chars : ∀ c ∈ text, c.isAlphanum = true

/-- A debug name: any characters of a line but quotes and angle brackets. -/
structure DebugName where
  text : Str
  chars : ∀ c ∈ text, c ∉ ['"', '<', '>', '\n', '\r']

/-- A module name, as `env` or `GOT.mem`: no space, and no dot at the start. -/
structure ModuleName where
  text : Str
  nonempty : text ≠ []
  chars : ∀ c ∈ text, c ∉ ['"', '<', '>', ' ', '\n', '\r']
  head : ∀ c ∈ text.head?, c ≠ '.'

/-- An entry of the Import section. -/
inductive ImportEntry where
  | func (i s : Digits) (N : DebugName) (M : ModuleName) (F : Ident)
  | global (i : Digits) (T : ValType) (b : Digits) (M : ModuleName) (F : Ident)

/-- An entry of the Export section. -/
inductive ExportEntry where
  | func (i : Digits) (N : DebugName) (F : Ident)
  | global (i : Digits) (F : Ident)

/-- The text before the arrow of an imported function. -/
def funcLeft (s : Digits) (N : DebugName) : Str := ['s', 'i', 'g', '='] ++ s.text ++ [' ', '<'] ++ N.text ++
  ['>', ' ']

/-- The text before the arrow of an imported global. -/
def globalLeft (T : ValType) (b : Digits) : Str := T.text ++
  [' ', 'm', 'u', 't', 'a', 'b', 'l', 'e', '='] ++ b.text ++ [' ']

/-- The text behind the arrow of an import. -/
def importRight (M : ModuleName) (F : Ident) : Str := M.text ++ '.' :: F.text

/-- The text behind the arrow of an export. -/
def exportRight (F : Ident) : Str := ['"'] ++ F.text ++ ['"']

namespace ImportEntry

/-- The line of an entry. -/
def text : ImportEntry → Str
  | func i s N M F => funcStart ++ i.text ++ [']', ' '] ++ (funcLeft s N ++ ['<', '-', ' '] ++ importRight M F)
  | global i T b M F =>
      globalStart ++ i.text ++ [']', ' '] ++ (globalLeft T b ++ ['<', '-', ' '] ++ importRight M F)

/-- The symbol of an import. -/
def symbol : ImportEntry → Str
  | func _ _ _ _ F => F.text
  | global _ _ _ _ F => F.text

end ImportEntry

namespace ExportEntry

/-- The line of an entry. -/
def text : ExportEntry → Str
  | func i N F =>
      funcStart ++ i.text ++ [']', ' '] ++
        (['<'] ++ N.text ++ ['>', ' '] ++ ['-', '>', ' '] ++ exportRight F)
  | global i F => globalStart ++ i.text ++ [']', ' '] ++ ([] ++ ['-', '>', ' '] ++ exportRight F)

/-- The symbol of an export. -/
def symbol : ExportEntry → Str
  | func _ _ F => F.text
  | global _ F => F.text

end ExportEntry

/-! ## What is filtered -/

/-- A name that the script rejects: it has a space, but no `=` unless it begins with one, and no `::` unless it
begins with one. -/
def Spaced (name : Str) : Prop := ' ' ∈ name ∧ ¬0 < find name ['='] ∧ ¬0 < find name [':', ':']

instance (name : Str) : Decidable (Spaced name) := by unfold Spaced; infer_instance

/-- The part of a name behind its last dot. -/
def afterDot (name : Str) : Str :=
  match rsplitOnce ['.'] name with
  | some parts => parts.2
  | none => name

/-- An import that the script rejects. -/
def ImportEntry.Filtered : ImportEntry → Prop
  | func _ _ N _ _ => Spaced (strip isBad (afterDot N.text))
  | global .. => False

/-- An export that the script rejects. -/
def ExportEntry.Filtered : ExportEntry → Prop
  | func _ N _ => Spaced (strip isBad N.text)
  | global .. => False

/-- An export with a dot in its debug name. -/
def ExportEntry.Dotted : ExportEntry → Prop
  | func _ N _ => '.' ∈ N.text
  | global .. => False

/-! ## Characters -/

section Characters

variable (F : Ident)

/-- An identifier has no other characters than letters, digits and underscores. -/
theorem Ident.not_mem {c : Char} (h : c.isAlphanum = false) (hne : c ≠ '_') : c ∉ F.text := by
  intro hc
  rcases F.chars c hc with halnum | rfl
  · rw [h] at halnum
    cases halnum
  · exact hne rfl

/-- Stripping leaves an identifier alone. -/
theorem Ident.trimmed : Trimmed isBad F.text := by
  have hgood : ∀ c ∈ F.text, ¬isBad c = true := by
    intro c hc hbad
    simp only [isBad, List.mem_cons, List.not_mem_nil, or_false, decide_eq_true_eq] at hbad
    rcases hbad with rfl | rfl | rfl | rfl <;> exact F.not_mem (by decide) (by decide) hc
  exact trimmed_of_forall hgood

end Characters

/-! ## The last steps -/

/-- A name that does not start with a space has one, or `find` is not positive. -/
theorem find_space_pos {name : Str} (h : Trimmed isBad name) : 0 < find name [' '] ↔ ' ' ∈ name := by
  cases name with
  | nil => exact iff_of_false (not_find_char_pos (List.not_mem_nil)) List.not_mem_nil
  | cons c name =>
      have hne : c ≠ ' ' := by
        rintro rfl
        exact h.1 ' ' rfl rfl
      constructor
      · intro hpos
        by_contra hnot
        exact not_find_char_pos hnot hpos
      · intro hmem
        rcases List.mem_cons.mp hmem with heq | hmem
        · exact absurd heq.symm hne
        · exact find_char_pos hmem hne

/-- With an identifier as the symbol, the debug name decides. -/
theorem report_ident (F : Ident) {left : Str} (hleft : Trimmed isBad left) :
    report false left F.text = if Spaced left then none else some F.text := by
  have hequals : ¬0 < find F.text ['='] := not_find_char_pos (F.not_mem (by decide) (by decide))
  have hspace : ¬0 < find F.text [' '] := not_find_char_pos (F.not_mem (by decide) (by decide))
  have hcolons : ¬0 < find F.text [':', ':'] := by
    rw [find_pos]
    intro h
    exact F.not_mem (c := ':') (by decide) (by decide) (h.1.subset (by simp))
  -- each test of `report` on the left name, in the order of the script
  by_cases h : 0 < find left ['=']
  · have hnot : ¬Spaced left := fun hs => hs.2.1 h
    simp [report, h, hequals, hcolons, hspace, hnot, F.nonempty]
  · by_cases hnil : left = []
    · subst hnil
      have hnot : ¬Spaced [] := fun hs => List.not_mem_nil hs.1
      simp [report, h, hequals, hcolons, hspace, hnot, F.nonempty]
    · simp only [report, h, hnil, if_false, Bool.false_eq_true, F.nonempty]
      by_cases hcc : 0 < find left [':', ':']
      · rw [if_pos hcc, if_neg fun hs => hs.2.2 hcc]
      · simp only [hcc, if_false, find_space_pos hleft, Spaced, h, not_false_eq_true, and_true]

/-- The symbol behind the arrow of an import is found behind its last dot. -/
theorem cut_importRight (M : ModuleName) (F : Ident) : rsplitOnce ['.'] (importRight M F) =
    some (M.text, F.text) :=
  rsplitOnce_char (F.not_mem (by decide) (by decide))

/-- The dot of an import stands behind the name of the module. -/
theorem find_importRight (M : ModuleName) (F : Ident) : 0 < find (importRight M F) ['.'] := by
  cases hM : M.text with
  | nil => exact absurd hM M.nonempty
  | cons c name =>
      rw [importRight, hM]
      exact find_char_pos (by simp) (M.head c (by rw [hM]; rfl))

/-- The end of the `try` block, where the name on the right is the symbol with or without its module. -/
theorem symbolOf_eq {way header left right l r : Str} (F : Ident)
    (hcut : rsplitOnce way header = some (left, right))
    (hnames : cleanNames (strip isBad left) (strip isBad right) = some (l, r))
    (hr : r = F.text ∨ ∃ M, r = importRight M F) :
    symbolOf way false header = if Spaced (strip isBad l) then none else some F.text := by
  -- behind the last dot of the right name is the symbol
  have hright : (if 0 < find r ['.'] then (rsplitOnce ['.'] r).map Prod.snd else some r) = some F.text := by
    rcases hr with rfl | ⟨M, rfl⟩
    · exact if_neg (not_find_char_pos (F.not_mem (by decide) (by decide)))
    · rw [if_pos (find_importRight M F), cut_importRight]
      rfl
  simp only [symbolOf, hcut, hnames, Option.bind_some, hright, strip_eq_self F.trimmed]
  exact report_ident F (trimmed_strip isBad l)

/-! ## Headers of imports -/

/-- The characters of a debug name but the space are not stripped. -/
theorem DebugName.not_bad (N : DebugName) {c : Char} (hc : c ∈ N.text) (hne : c ≠ ' ') : ¬isBad c = true := by
  have hchars := N.chars c hc
  simp only [isBad, List.mem_cons, List.not_mem_nil, or_false, decide_eq_true_eq, not_or] at hchars ⊢
  exact ⟨hchars.1, hchars.2.1, hchars.2.2.1, hne⟩

/-- The arrow is the last one. -/
theorem cut_import (left : Str) (M : ModuleName) (F : Ident) :
    rsplitOnce ['<', '-', ' '] (left ++ ['<', '-', ' '] ++ importRight M F) = some (left, importRight M F) := by
  -- nothing behind the arrow has a `<`
  refine rsplitOnce_append (rsplitOnce_eq_none (y := '<') (by simp) ?_)
  have hM : '<' ∉ M.text := fun h => M.chars '<' h (by simp)
  have hF : '<' ∉ F.text := F.not_mem (by decide) (by decide)
  simp [importRight, hM, hF]

/-- Nothing is stripped from the text behind the arrow. -/
theorem trimmed_importRight (M : ModuleName) (F : Ident) : Trimmed isBad (importRight M F) := by
  cases hM : M.text with
  | nil => exact absurd hM M.nonempty
  | cons x name =>
      have hx : ¬isBad x = true := by
        intro hbad
        have hchars := M.chars x (by simp [hM])
        simp only [isBad, List.mem_cons, List.not_mem_nil, or_false, decide_eq_true_eq] at hchars hbad
        tauto
      have htrimmed := trimmed_cons_append (a := name ++ ['.']) hx F.nonempty F.trimmed.2
      rw [importRight, hM]
      simpa using htrimmed

/-- A number has digits only. -/
theorem Digits.not_mem (s : Digits) {c : Char} (h : c.isDigit = false) : c ∉ s.text := by
  intro hc
  rw [s.chars c hc] at h
  cases h

/-- The bytes that are not digits, quotes, brackets or spaces end a text that `strip` leaves alone. -/
theorem Digits.not_bad (s : Digits) {c : Char} (hc : c ∈ s.text) : ¬isBad c = true := by
  intro hbad
  simp only [isBad, List.mem_cons, List.not_mem_nil, or_false, decide_eq_true_eq] at hbad
  rcases hbad with rfl | rfl | rfl | rfl <;> exact s.not_mem (by decide) hc

/-- The text `sig=s`, which stays when the debug name is blank. -/
def sigText (s : Digits) : Str := ['s', 'i', 'g', '='] ++ s.text

/-- Nothing is stripped from the signature of a function. -/
theorem trimmed_sigText (s : Digits) : Trimmed isBad (sigText s) := by
  refine trimmed_of_forall fun c hc => ?_
  rw [sigText] at hc
  rcases List.mem_append.mp hc with hc | hc
  · simp only [List.mem_cons, List.not_mem_nil, or_false] at hc
    rcases hc with rfl | rfl | rfl | rfl <;> decide
  · exact s.not_bad hc

/-- What `strip` leaves of the text before the arrow of an imported function. -/
theorem strip_funcLeft (s : Digits) (N : DebugName) : strip isBad (funcLeft s N) =
    if N.text.rdropWhile isBad = [] then sigText s else sigText s ++ [' ', '<'] ++ N.text.rdropWhile isBad := by
  have hleft : funcLeft s N = sigText s ++ ([' ', '<'] ++ N.text ++ ['>', ' ']) := by
    simp [funcLeft, sigText]
  split_ifs with hnil
  · rw [List.rdropWhile_eq_nil_iff] at hnil
    have hstrip := strip_append_append (a := []) (b := [' ', '<'] ++ N.text ++ ['>', ' ']) (by simp) ?_
      (trimmed_sigText s)
    · rwa [List.nil_append, ← hleft] at hstrip
    · intro c hc
      simp only [List.mem_append, List.mem_cons, List.not_mem_nil, or_false] at hc
      rcases hc with (hc | hc) | hc
      · rcases hc with rfl | rfl <;> decide
      · exact hnil c hc
      · rcases hc with rfl | rfl <;> decide
  · have htrimmed : Trimmed isBad (sigText s ++ [' ', '<'] ++ N.text.rdropWhile isBad) := by
      have hlast : ∀ c ∈ (N.text.rdropWhile isBad).getLast?, ¬isBad c = true := by
        intro c hc
        rw [Option.mem_def, List.getLast?_eq_some_getLast hnil, Option.some.injEq] at hc
        exact hc ▸ List.rdropWhile_last_not isBad _ hnil
      have hends := trimmed_cons_append (x := 's') (a := ['i', 'g', '='] ++ s.text ++ [' ', '<'])
        (by decide) hnil hlast
      rw [sigText]
      simpa using hends
    have hstrip := strip_append_append (a := []) (b := N.text.rtakeWhile isBad ++ ['>', ' '])
      (by simp) ?_ htrimmed
    · have hsplit : funcLeft s N = sigText s ++ [' ', '<'] ++ N.text.rdropWhile isBad ++
          (N.text.rtakeWhile isBad ++ ['>', ' ']) := by
        have hN : N.text.rdropWhile isBad ++ N.text.rtakeWhile isBad = N.text :=
          List.rdropWhile_append_rtakeWhile
        rw [hleft]
        simp only [List.append_assoc]
        rw [← List.append_assoc (N.text.rdropWhile isBad), hN]
      rwa [List.nil_append, ← hsplit] at hstrip
    · intro c hc
      rcases List.mem_append.mp hc with hc | hc
      · exact List.mem_rtakeWhile_imp hc
      · simp only [List.mem_cons, List.not_mem_nil, or_false] at hc
        rcases hc with rfl | rfl <;> decide

section Clean

variable {left right : Str}

/-- The loop over `clean` cuts behind a dot. -/
theorem cleanNames_of_dot (h : '.' ∈ left) : cleanNames left right =
    (rsplitOnce ['.'] left).bind fun l => (rsplitOnce ['.'] right).map fun r => (l.2, r.2) :=
  if_pos (find_char_nonneg.mpr h)

/-- Without a dot the loop over `clean` cuts behind the bracket before a debug name. -/
theorem cleanNames_of_angle (hdot : '.' ∉ left) (h : [' ', '<'] <:+: left) : cleanNames left right =
    (rsplitOnce [' ', '<'] left).bind fun l => (rsplitOnce ['.'] right).map fun r => (l.2, r.2) :=
  (if_neg fun hpos => hdot (find_char_nonneg.mp hpos)).trans (if_pos (find_nonneg.mpr h))

/-- With neither a dot nor such a bracket the loop over `clean` does not cut. -/
theorem cleanNames_of_neither (hdot : '.' ∉ left) (h : ¬[' ', '<'] <:+: left) :
    cleanNames left right = some (left, right) :=
  (if_neg fun hpos => hdot (find_char_nonneg.mp hpos)).trans (if_neg fun hpos => h (find_nonneg.mp hpos))

end Clean

/-- The loop over `clean` on an import: a name that is cut as the debug name is, or no name to filter. -/
theorem cleanNames_func (s : Digits) (N : DebugName) (M : ModuleName) (F : Ident) :
    ∃ l r, cleanNames (strip isBad (funcLeft s N)) (importRight M F) = some (l, r) ∧
      (r = F.text ∨ ∃ M, r = importRight M F) ∧
      (Spaced (strip isBad l) ↔ Spaced (strip isBad (afterDot N.text))) := by
  have hsig : '.' ∉ sigText s := by
    rw [sigText]
    simp [s.not_mem (c := '.') (by decide)]
  have hsplit : N.text.rdropWhile isBad ++ N.text.rtakeWhile isBad = N.text := List.rdropWhile_append_rtakeWhile
  have hbad : ∀ c ∈ N.text.rtakeWhile isBad, isBad c = true := fun c hc => List.mem_rtakeWhile_imp hc
  rw [strip_funcLeft]
  by_cases hnil : N.text.rdropWhile isBad = []
  · -- a blank name: neither text of the loop occurs, and `sig=s` gives way to the symbol
    have hblank : ∀ c ∈ N.text, isBad c = true := List.rdropWhile_eq_nil_iff.mp hnil
    have hangle : ¬[' ', '<'] <:+: sigText s := by
      intro h
      have hmem : '<' ∈ sigText s := h.subset (by simp)
      rw [sigText] at hmem
      simp [s.not_mem (c := '<') (by decide)] at hmem
    refine ⟨sigText s, importRight M F, ?_, .inr ⟨M, rfl⟩, ?_⟩
    · rw [if_pos hnil, cleanNames_of_neither hsig hangle]
    · have hsigSpaced : ¬Spaced (strip isBad (sigText s)) := by
        rw [strip_eq_self (trimmed_sigText s), sigText]
        exact fun h => h.2.1 (find_char_pos (by simp) (by decide))
      have hnoDot : rsplitOnce ['.'] N.text = none :=
        rsplitOnce_eq_none (List.mem_singleton_self '.') fun h => absurd (hblank '.' h) (by decide)
      have hstrip : strip isBad N.text = [] := by
        have hall := strip_append_append (a := []) (m := []) (by simp) hblank ⟨by simp, by simp⟩
        simpa using hall
      rw [afterDot, hnoDot]
      show _ ↔ Spaced (strip isBad N.text)
      rw [hstrip]
      exact iff_of_false hsigSpaced fun h => List.not_mem_nil h.1
  · rw [if_neg hnil]
    have hnotDot : '.' ∉ N.text.rtakeWhile isBad := fun h => absurd (hbad '.' h) (by decide)
    by_cases hdot : '.' ∈ N.text.rdropWhile isBad
    · obtain ⟨u, v, huv, hv⟩ := exists_last hdot
      refine ⟨v, F.text, ?_, .inl rfl, ?_⟩
      · have hcut : rsplitOnce ['.'] (sigText s ++ [' ', '<'] ++ N.text.rdropWhile isBad) =
            some (sigText s ++ [' ', '<'] ++ u, v) := by
          rw [huv, ← List.append_assoc]
          exact rsplitOnce_char hv
        have hmem : '.' ∈ sigText s ++ [' ', '<'] ++ N.text.rdropWhile isBad := by simp [hdot]
        rw [cleanNames_of_dot hmem, hcut, cut_importRight]
        rfl
      · have hname : rsplitOnce ['.'] N.text = some (u, v ++ N.text.rtakeWhile isBad) := by
          have hv' : '.' ∉ v ++ N.text.rtakeWhile isBad := by simp [hv, hnotDot]
          have hcut := rsplitOnce_char (a := u) hv'
          rwa [← List.cons_append, ← List.append_assoc, ← huv, hsplit] at hcut
        rw [afterDot, hname]
        show _ ↔ Spaced (strip isBad (v ++ N.text.rtakeWhile isBad))
        rw [strip_append_right hbad]
    · have hmem : '.' ∉ sigText s ++ [' ', '<'] ++ N.text.rdropWhile isBad := by simp [hdot, hsig]
      have hnoAngle : '<' ∉ N.text.rdropWhile isBad := fun h =>
        N.chars '<' ((List.rdropWhile_prefix isBad _).subset h) (by simp)
      have hinfix : [' ', '<'] <:+: sigText s ++ [' ', '<'] ++ N.text.rdropWhile isBad :=
        List.infix_append _ _ _
      have hnone : rsplitOnce [' ', '<'] (['<'] ++ N.text.rdropWhile isBad) = none := by
        refine rsplitOnce_cons_eq_none (rsplitOnce_eq_none (y := '<') (by simp) hnoAngle) ?_
        rw [List.cons_prefix_cons]
        exact fun h => absurd h.1 (by decide)
      refine ⟨N.text.rdropWhile isBad, F.text, ?_, .inl rfl, ?_⟩
      · rw [cleanNames_of_angle hmem hinfix, rsplitOnce_append hnone, cut_importRight]
        rfl
      · have hname : rsplitOnce ['.'] N.text = none := by
          refine rsplitOnce_eq_none (List.mem_singleton_self '.') fun h => ?_
          rw [← hsplit] at h
          exact (List.mem_append.mp h).elim hdot hnotDot
        rw [afterDot, hname]
        show _ ↔ Spaced (strip isBad N.text)
        conv_rhs => rw [← hsplit, strip_append_right hbad]

/-! ## The symbol of each entry -/

/-- An imported function is reported unless its debug name is filtered. -/
theorem symbolOf_importFunc (s : Digits) (N : DebugName) (M : ModuleName) (F : Ident) :
    symbolOf ['<', '-', ' '] false (funcLeft s N ++ ['<', '-', ' '] ++ importRight M F) =
      if Spaced (strip isBad (afterDot N.text)) then none else some F.text := by
  obtain ⟨l, r, hnames, hr, hspaced⟩ := cleanNames_func s N M F
  rw [← strip_eq_self (trimmed_importRight M F)] at hnames
  rw [symbolOf_eq F (cut_import (funcLeft s N) M F) hnames hr, if_congr hspaced rfl rfl]

/-- A value type has letters and digits only. -/
theorem ValType.not_mem (T : ValType) {c : Char} (h : c.isAlphanum = false) : c ∉ T.text := by
  intro hc
  rw [T.chars c hc] at h
  cases h

/-- Stripping the text before the arrow of a global takes its last space. -/
theorem strip_globalLeft (T : ValType) (b : Digits) :
    strip isBad (globalLeft T b) = T.text ++ [' ', 'm', 'u', 't', 'a', 'b', 'l', 'e', '='] ++ b.text := by
  have htrimmed : Trimmed isBad (T.text ++ [' ', 'm', 'u', 't', 'a', 'b', 'l', 'e', '='] ++ b.text) := by
    cases hT : T.text with
    | nil => exact absurd hT T.nonempty
    | cons x name =>
        have hx : ¬isBad x = true := by
          intro hbad
          have hmem : x ∈ T.text := by simp [hT]
          simp only [isBad, List.mem_cons, List.not_mem_nil, or_false, decide_eq_true_eq] at hbad
          rcases hbad with rfl | rfl | rfl | rfl <;> exact T.not_mem (by decide) hmem
        have hlast : ∀ c ∈ ('=' :: b.text).getLast?, ¬isBad c = true := by
          intro c hc
          rcases List.mem_cons.mp (List.mem_of_mem_getLast? hc) with rfl | hc
          · decide
          · exact b.not_bad hc
        have hends := trimmed_cons_append (a := name ++ [' ', 'm', 'u', 't', 'a', 'b', 'l', 'e']) hx
          (List.cons_ne_nil _ _) hlast
        simpa using hends
  have hstrip := strip_append_append (a := []) (b := [' ']) (by simp) (by simp [isBad]) htrimmed
  rwa [List.nil_append] at hstrip

/-- An imported global is always reported. -/
theorem symbolOf_importGlobal (T : ValType) (b : Digits) (M : ModuleName) (F : Ident) :
    symbolOf ['<', '-', ' '] false (globalLeft T b ++ ['<', '-', ' '] ++ importRight M F) = some F.text := by
  have hdot : '.' ∉ T.text ++ [' ', 'm', 'u', 't', 'a', 'b', 'l', 'e', '='] ++ b.text := by
    simp [T.not_mem (c := '.') (by decide), b.not_mem (c := '.') (by decide)]
  have hangle : ¬[' ', '<'] <:+: T.text ++ [' ', 'm', 'u', 't', 'a', 'b', 'l', 'e', '='] ++ b.text := by
    intro h
    have hmem : '<' ∈ T.text ++ [' ', 'm', 'u', 't', 'a', 'b', 'l', 'e', '='] ++ b.text := h.subset (by simp)
    simp [T.not_mem (c := '<') (by decide), b.not_mem (c := '<') (by decide)] at hmem
  have hnames : cleanNames (strip isBad (globalLeft T b)) (strip isBad (importRight M F)) =
      some (T.text ++ [' ', 'm', 'u', 't', 'a', 'b', 'l', 'e', '='] ++ b.text, importRight M F) := by
    rw [strip_globalLeft, strip_eq_self (trimmed_importRight M F), cleanNames_of_neither hdot hangle]
  rw [symbolOf_eq F (cut_import (globalLeft T b) M F) hnames (.inr ⟨M, rfl⟩), if_neg]
  rw [← strip_globalLeft, strip_eq_self (trimmed_strip isBad _), strip_globalLeft]
  intro h
  refine h.2.1 ?_
  cases hT : T.text with
  | nil => exact absurd hT T.nonempty
  | cons x name =>
      have hne : x ≠ '=' := by
        rintro rfl
        exact T.not_mem (c := '=') (by decide) (by simp [hT])
      exact find_char_pos (by simp) hne

/-- The arrow of an export is the last one, and the quotes are stripped. -/
theorem cut_export (left : Str) (F : Ident) :
    rsplitOnce ['-', '>', ' '] (left ++ ['-', '>', ' '] ++ exportRight F) = some (left, exportRight F) := by
  refine rsplitOnce_append (rsplitOnce_eq_none (y := '-') (by simp) ?_)
  have hF : '-' ∉ F.text := F.not_mem (by decide) (by decide)
  simp [exportRight, hF]

/-- Stripping the text behind the arrow of an export takes its quotes. -/
theorem strip_exportRight (F : Ident) : strip isBad (exportRight F) = F.text :=
  strip_append_append (by simp [isBad]) (by simp [isBad]) F.trimmed

/-- An exported function is reported unless its debug name has a dot or is filtered. -/
theorem symbolOf_exportFunc (N : DebugName) (F : Ident) :
    symbolOf ['-', '>', ' '] false (['<'] ++ N.text ++ ['>', ' '] ++ ['-', '>', ' '] ++ exportRight F) =
      if '.' ∈ N.text ∨ Spaced (strip isBad N.text) then none else some F.text := by
  obtain ⟨a, b, hN, ha, hb, htrimmed⟩ := exists_strip isBad N.text
  have hleft : strip isBad (['<'] ++ N.text ++ ['>', ' ']) = strip isBad N.text := by
    have hstrip := strip_append_append (a := '<' :: a) (b := b ++ ['>', ' ']) ?_ ?_ htrimmed
    · have hsplit : '<' :: a ++ strip isBad N.text ++ (b ++ ['>', ' ']) = ['<'] ++ N.text ++ ['>', ' '] := by
        conv_rhs => rw [hN]
        simp
      rwa [hsplit] at hstrip
    · exact List.forall_mem_cons.mpr ⟨by decide, ha⟩
    · intro c hc
      rcases List.mem_append.mp hc with hc | hc
      · exact hb c hc
      · simp only [List.mem_cons, List.not_mem_nil, or_false] at hc
        rcases hc with rfl | rfl <;> decide
  have hdot : '.' ∈ N.text ↔ '.' ∈ strip isBad N.text := by
    conv_lhs => rw [hN]
    have ha' : '.' ∉ a := fun h => absurd (ha '.' h) (by decide)
    have hb' : '.' ∉ b := fun h => absurd (hb '.' h) (by decide)
    simp [ha', hb']
  by_cases hmem : '.' ∈ strip isBad N.text
  · rw [if_pos (.inl (hdot.mpr hmem))]
    have hnone : rsplitOnce ['.'] F.text = none :=
      rsplitOnce_eq_none (List.mem_singleton_self '.') (F.not_mem (by decide) (by decide))
    rw [symbolOf, cut_export, Option.bind_some, hleft, strip_exportRight, cleanNames_of_dot hmem, hnone]
    cases rsplitOnce ['.'] (strip isBad N.text) <;> rfl
  · have hangle : ¬[' ', '<'] <:+: strip isBad N.text := by
      intro h
      have hmem' : '<' ∈ N.text := by
        rw [hN]
        simp [h.subset (show '<' ∈ [' ', '<'] by simp)]
      exact N.chars '<' hmem' (by simp)
    have hnames : cleanNames (strip isBad (['<'] ++ N.text ++ ['>', ' '])) (strip isBad (exportRight F)) =
        some (strip isBad N.text, F.text) := by
      rw [hleft, strip_exportRight, cleanNames_of_neither hmem hangle]
    have hor : Spaced (strip isBad (strip isBad N.text)) ↔ '.' ∈ N.text ∨ Spaced (strip isBad N.text) := by
      rw [strip_eq_self (trimmed_strip isBad N.text), hdot, or_iff_right hmem]
    rw [symbolOf_eq F (cut_export _ F) hnames (.inl rfl), if_congr hor rfl rfl]

/-- An exported global is always reported. -/
theorem symbolOf_exportGlobal (F : Ident) :
    symbolOf ['-', '>', ' '] false ([] ++ ['-', '>', ' '] ++ exportRight F) = some F.text := by
  have hnames : cleanNames (strip isBad []) (strip isBad (exportRight F)) = some ([], F.text) := by
    rw [strip_exportRight]
    exact cleanNames_of_neither List.not_mem_nil (by decide)
  rw [symbolOf_eq F (cut_export [] F) hnames (.inl rfl)]
  exact if_neg fun h => List.not_mem_nil h.1

end PgliteBuild
