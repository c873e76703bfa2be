import Bomwerk.Core.GitConfig
import Mathlib.Data.List.ModifyLast

/-!
# Written git configuration

The text that git writes for sections and their entries, and what
`parse_git_config` reads of it: the first entry of a key, and each text as it
stands between its quotes.
-/

namespace Bomwerk.Core

def GitConfig.find? (config : GitConfig) (name subsection key : String) :
    Option String :=
  config.sections.findSome? fun block =>
    if block.name = toLowerAscii name ∧ block.subsection = subsection then
      block.find? key
    else none

namespace GitConfigWriting

structure WrittenEntry where
  key : String
  value : String

/-- A section; an empty subsection stands for none. -/
structure WrittenSection where
  name : String
  subsection : String
  entries : List WrittenEntry

def escapedQuotes (text : List Char) : List Char :=
  text.flatMap fun c => if c = '"' ∨ c = '\\' then ['\\', c] else [c]

def escapedValueChar (c : Char) : List Char :=
  if c = '"' ∨ c = '\\' then ['\\', c]
  else if c = '\n' then ['\\', 'n']
  else if c = '\t' then ['\\', 't']
  else [c]

/-- A value, with its quotes, backslashes, newlines and tabs escaped. -/
def escapedValue (text : List Char) : List Char :=
  text.flatMap escapedValueChar

/-- The value would lose something without quotes around it. -/
def needsQuotes (text : List Char) : Bool :=
  text.head? = some ' ' || text.getLast? = some ' ' ||
    text.any fun c => c = ';' || c = '#' || c = '\r'

def writtenValue (text : List Char) : List Char :=
  if needsQuotes text then '"' :: (escapedValue text ++ ['"'])
  else escapedValue text

def headerLine (written : WrittenSection) : List Char :=
  '[' :: (written.name.toList ++
    ((if written.subsection = "" then []
      else ' ' :: '"' :: (escapedQuotes written.subsection.toList ++ ['"'])) ++
        [']']))

def entryLine (written : WrittenEntry) : List Char :=
  '\t' :: (written.key.toList ++
    (' ' :: '=' :: ' ' :: writtenValue written.value.toList))

def sectionLines (written : WrittenSection) : List (List Char) :=
  headerLine written :: written.entries.map entryLine

def configText (written : List WrittenSection) : List Char :=
  ['\n'].intercalate (written.flatMap sectionLines ++ [[]])

def isNameChar (c : Char) : Bool :=
  c.isAlphanum || c = '-' || c = '.'

structure IsName (name : String) : Prop where
  ne_empty : name ≠ ""
  all : ∀ c ∈ name.toList, isNameChar c = true

structure WrittenSection.IsValid (written : WrittenSection) : Prop where
  name : IsName written.name
  newline_notMem : '\n' ∉ written.subsection.toList
  keys : ∀ entry ∈ written.entries, IsName entry.key

/-- A configuration that git writes, within the size limits. -/
structure IsWrittenConfig (written : List WrittenSection) : Prop where
  valid : ∀ block ∈ written, block.IsValid
  lines : ∀ line ∈ written.flatMap sectionLines, line.length ≤ maxLineBytes
  sections : written.length ≤ maxSections
  bytes : (configText written).length ≤ maxConfigBytes

theorem not_blank_of_isNameChar {c : Char} (h : isNameChar c = true) :
    isAsciiBlank c = false := by
  rw [isAsciiBlank, decide_eq_false_iff_not]
  rintro (rfl | rfl | rfl | rfl) <;> exact absurd h (by decide)

theorem IsName.isSolid {name : String} (h : IsName name) :
    IsSolid name.toList := by
  apply isSolid_of_forall
  · intro hnil
    exact h.ne_empty (String.toList_eq_nil_iff.mp hnil)
  · intro c hc
    exact not_blank_of_isNameChar (h.all c hc)

theorem IsName.notMem {name : String} (h : IsName name) {c : Char}
    (hc : isNameChar c = false) : c ∉ name.toList := by
  intro hmem
  rw [h.all c hmem] at hc
  cases hc

theorem trimmed_isName_space {name : String} (h : IsName name) :
    trimmed (name.toList ++ [' ']) = name.toList :=
  (trimmed_append h.isSolid [' ']).trans (List.append_nil _)

theorem takeWhile_ne_of_notMem {c : Char} {text : List Char} (h : c ∉ text)
    (rest : List Char) : (text ++ c :: rest).takeWhile (· ≠ c) = text := by
  rw [List.takeWhile_append_of_pos]
  · simp
  · intro d hd
    rw [decide_eq_true_eq]
    rintro rfl
    exact h hd

theorem dropWhile_ne_of_notMem {c : Char} {text : List Char} (h : c ∉ text)
    (rest : List Char) : (text ++ c :: rest).dropWhile (· ≠ c) = c :: rest := by
  rw [List.dropWhile_append_of_pos]
  · simp
  · intro d hd
    rw [decide_eq_true_eq]
    rintro rfl
    exact h hd

/-- A bracket inside a subsection closes the header too soon; without one the
subsection is read as it stands in the file. -/
theorem parseSectionHeader_headerLine {written : WrittenSection}
    (hvalid : written.IsValid) (hbracket : ']' ∉ written.subsection.toList) :
    parseSectionHeader (headerLine written) = some (toLowerAscii written.name,
        String.ofList (escapedQuotes written.subsection.toList)) := by
  have hname := hvalid.name.notMem (show isNameChar ']' = false by decide)
  have hquote := hvalid.name.notMem (show isNameChar '"' = false by decide)
  have hescaped : ']' ∉ escapedQuotes written.subsection.toList := by
    rw [escapedQuotes, List.mem_flatMap]
    rintro ⟨c, hc, hmem⟩
    have hne : ']' ≠ c := by
      rintro rfl
      exact hbracket hc
    split_ifs at hmem
    · simp [hne] at hmem
    · simp [hne] at hmem
  by_cases hempty : written.subsection = ""
  · have hheader : headerLine written =
        ('[' :: written.name.toList) ++ ']' :: [] := by
      rw [headerLine, if_pos hempty]
      rfl
    have hinside : ((headerLine written).takeWhile (· ≠ ']')).tail =
        written.name.toList := by
      rw [hheader, takeWhile_ne_of_notMem (by simp [hname])]
      rfl
    have hmem : ']' ∈ headerLine written := by
      rw [hheader]
      simp
    rw [parseSectionHeader, if_neg (not_not.mpr hmem)]
    dsimp only
    rw [hinside]
    have hwhole : ∀ c ∈ written.name.toList, decide (c ≠ '"') = true := by
      intro c hc
      rw [decide_eq_true_eq]
      rintro rfl
      exact hquote hc
    rw [List.takeWhile_eq_self_iff.mpr hwhole,
      List.dropWhile_eq_nil_iff.mpr hwhole, hvalid.name.isSolid.trimmed_eq,
      String.ofList_toList, hempty]
    rfl
  · have hheader : headerLine written = ('[' :: (written.name.toList ++
          (' ' :: '"' :: (escapedQuotes written.subsection.toList ++
            ['"'])))) ++ ']' :: [] := by
      rw [headerLine, if_neg hempty]
      simp
    have hinside : ((headerLine written).takeWhile (· ≠ ']')).tail =
        (written.name.toList ++ [' ']) ++
          '"' :: (escapedQuotes written.subsection.toList ++ ['"']) := by
      rw [hheader, takeWhile_ne_of_notMem (by simp [hname, hescaped])]
      simp
    have hmem : ']' ∈ headerLine written := by
      rw [hheader]
      simp
    rw [parseSectionHeader, if_neg (not_not.mpr hmem)]
    dsimp only
    rw [hinside, takeWhile_ne_of_notMem (by simp [hquote]),
      dropWhile_ne_of_notMem (by simp [hquote]),
      trimmed_isName_space hvalid.name, String.ofList_toList, List.tail_cons,
      List.rdropWhile_concat_neg _ _ _ (by simp), List.dropLast_concat]

/-! ## Values -/

theorem isSolid_quoted (text : List Char) : IsSolid ('"' :: (text ++ ['"'])) :=
  ⟨⟨'"', rfl, rfl⟩, ⟨'"', List.getLast?_eq_some_iff.mpr
    ⟨'"' :: text, rfl⟩, rfl⟩⟩

theorem escapedValueChar_cases (c : Char) :
    (∃ d, escapedValueChar c = ['\\', d] ∧ isAsciiBlank d = false) ∨
      (escapedValueChar c = [c] ∧ c ≠ '"' ∧ c ≠ '\n' ∧ c ≠ '\t') := by
  unfold escapedValueChar
  split_ifs with hquote hnewline htab
  · left
    refine ⟨c, rfl, ?_⟩
    rcases hquote with rfl | rfl <;> rfl
  · exact .inl ⟨'n', rfl, rfl⟩
  · exact .inl ⟨'t', rfl, rfl⟩
  · exact .inr ⟨rfl, fun h => hquote (.inl h), hnewline, htab⟩

theorem escapedValue_cons (c : Char) (text : List Char) :
    escapedValue (c :: text) = escapedValueChar c ++ escapedValue text :=
  List.flatMap_cons

theorem escapedValue_concat (text : List Char) (c : Char) :
    escapedValue (text ++ [c]) = escapedValue text ++ escapedValueChar c := by
  rw [escapedValue, List.flatMap_append, List.flatMap_singleton]
  rfl

/-- Without quotes around it a value is not empty only when it starts and ends
with something that is not trimmed. -/
theorem isSolid_escapedValue {text : List Char} (hne : text ≠ [])
    (hquotes : needsQuotes text = false) : IsSolid (escapedValue text) := by
  simp only [needsQuotes, Bool.or_eq_false_iff, decide_eq_false_iff_not,
    List.any_eq_false, Bool.or_eq_true, decide_eq_true_eq, not_or] at hquotes
  obtain ⟨⟨hhead, hlast⟩, hmarks⟩ := hquotes
  constructor
  · obtain ⟨c, rest, rfl⟩ := List.exists_cons_of_ne_nil hne
    rw [escapedValue_cons]
    rcases escapedValueChar_cases c with ⟨d, hd, -⟩ | ⟨hc, -, hnewline, htab⟩
    · rw [hd]
      exact ⟨'\\', rfl, rfl⟩
    · rw [hc]
      refine ⟨c, rfl, ?_⟩
      have hreturn := (hmarks c List.mem_cons_self).2
      rw [isAsciiBlank, decide_eq_false_iff_not]
      rintro (rfl | rfl | rfl | rfl)
      · exact hhead rfl
      · exact htab rfl
      · exact hreturn rfl
      · exact hnewline rfl
  · obtain ⟨body, c, rfl⟩ := (List.eq_nil_or_concat' text).resolve_left hne
    rw [escapedValue_concat]
    rcases escapedValueChar_cases c with
      ⟨d, hd, hblank⟩ | ⟨hc, -, hnewline, htab⟩
    · rw [hd]
      exact ⟨d, by simp, hblank⟩
    · rw [hc]
      refine ⟨c, by simp, ?_⟩
      have hreturn := (hmarks c (List.mem_append_right _ List.mem_cons_self)).2
      rw [isAsciiBlank, decide_eq_false_iff_not]
      rintro (rfl | rfl | rfl | rfl)
      · exact hlast (by simp)
      · exact htab rfl
      · exact hreturn rfl
      · exact hnewline rfl

theorem unquoted_quoted (text : List Char) :
    unquoted ('"' :: (text ++ ['"'])) = text := by
  rw [unquoted, if_pos ⟨by simp, rfl, List.getLast?_eq_some_iff.mpr
    ⟨'"' :: text, rfl⟩⟩, List.tail_cons, List.dropLast_concat]

theorem unquoted_escapedValue (text : List Char) :
    unquoted (escapedValue text) = escapedValue text := by
  have hhead : (escapedValue text).head? ≠ some '"' := by
    cases text with
    | nil => simp [escapedValue]
    | cons c text =>
      rw [escapedValue_cons]
      rcases escapedValueChar_cases c with ⟨d, hd, -⟩ | ⟨hc, hquote, -⟩
      · rw [hd]
        simp
      · rw [hc]
        simpa using hquote
  rw [unquoted, if_neg]
  rintro ⟨-, h, -⟩
  exact hhead h

theorem writtenValue_cases (text : List Char) :
    writtenValue text = [] ∨ IsSolid (writtenValue text) := by
  rw [writtenValue]
  split_ifs with hquotes
  · exact .inr (isSolid_quoted _)
  · by_cases hne : text = []
    · subst hne
      exact .inl rfl
    · exact .inr (isSolid_escapedValue hne (by simpa using hquotes))

theorem unquoted_trimmed_writtenValue (text : List Char) :
    unquoted (trimmed (writtenValue text)) = escapedValue text := by
  rw [writtenValue]
  split_ifs with hquotes
  · rw [(isSolid_quoted _).trimmed_eq, unquoted_quoted]
  · by_cases hne : text = []
    · subst hne
      rfl
    · rw [(isSolid_escapedValue hne (by simpa using hquotes)).trimmed_eq,
        unquoted_escapedValue]

/-- A line that names a key, as the reader takes it. -/
theorem trimmed_entryLine {written : WrittenEntry} (hkey : IsName written.key) :
    ∃ rest, trimmed (entryLine written) =
        (written.key.toList ++ [' ']) ++ '=' :: rest ∧
      trimmed rest = trimmed (writtenValue written.value.toList) := by
  have hblank : AllBlank ['\t'] := by
    intro c hc
    rw [List.mem_singleton.mp hc]
    rfl
  have hsolid : IsSolid ((written.key.toList ++ [' ']) ++ ['=']) := by
    obtain ⟨c, hc, hcblank⟩ := hkey.isSolid.head
    obtain ⟨tail, htail⟩ := List.head?_eq_some_iff.mp hc
    exact ⟨⟨c, by rw [htail]; rfl, hcblank⟩,
      ⟨'=', List.getLast?_eq_some_iff.mpr ⟨_, rfl⟩, rfl⟩⟩
  have hline : entryLine written = ['\t'] ++
      (((written.key.toList ++ [' ']) ++ ['=']) ++
        ' ' :: writtenValue written.value.toList) := by
    rw [entryLine]
    simp
  have hspace : AllBlank [' '] := by
    intro c hc
    rw [List.mem_singleton.mp hc]
    rfl
  rw [hline, trimmed_blanks_append hblank, trimmed_append hsolid]
  refine ⟨(' ' :: writtenValue written.value.toList).rdropWhile isAsciiBlank,
    by simp, ?_⟩
  rcases writtenValue_cases written.value.toList with hnil | hvalue
  · rw [hnil]
    rfl
  · obtain ⟨last, hlast, hlastSolid⟩ := hvalue.last
    obtain ⟨body, hbody⟩ := List.getLast?_eq_some_iff.mp hlast
    have hkept : (' ' :: writtenValue written.value.toList).rdropWhile
        isAsciiBlank = ' ' :: writtenValue written.value.toList := by
      rw [hbody, ← List.cons_append,
        List.rdropWhile_concat_neg _ _ _ (by simp [hlastSolid])]
    rw [hkept]
    exact trimmed_blanks_append hspace _

theorem parseEntry_entryLine {written : WrittenEntry}
    (hkey : IsName written.key) :
    parseEntry (trimmed (entryLine written)) =
      { key := toLowerAscii written.key
        value := String.ofList (escapedValue written.value.toList) } := by
  obtain ⟨rest, hline, hrest⟩ := trimmed_entryLine hkey
  have hequals : '=' ∉ written.key.toList ++ [' '] := by
    simp [hkey.notMem (show isNameChar '=' = false by decide)]
  rw [hline, parseEntry, if_neg (by simp), takeWhile_ne_of_notMem hequals,
    dropWhile_ne_of_notMem hequals, trimmed_isName_space hkey,
    String.ofList_toList, List.tail_cons, hrest]
  have hvalue : unquoted (trimmed (writtenValue written.value.toList)) =
      escapedValue written.value.toList := unquoted_trimmed_writtenValue _
  rw [hvalue]

/-! ## The sections that are read -/

def readEntry (written : WrittenEntry) : GitConfigEntry where
  key := toLowerAscii written.key
  value := String.ofList (escapedValue written.value.toList)

def readSection (written : WrittenSection) : GitConfigSection where
  name := toLowerAscii written.name
  subsection := String.ofList (escapedQuotes written.subsection.toList)
  entries := written.entries.map readEntry

section Run

variable {label : String}

theorem toLowerAscii_ne_empty {text : String} (h : text ≠ "") :
    toLowerAscii text ≠ "" := by
  intro hempty
  apply h
  rw [toLowerAscii, ← String.toList_inj, String.toList_ofList] at hempty
  exact String.toList_eq_nil_iff.mp (List.map_eq_nil_iff.mp hempty)

/-- An entry goes to the last section. -/
theorem step_entryLine {written : WrittenEntry} (hkey : IsName written.key)
    (hlength : (entryLine written).length ≤ maxLineBytes)
    {state : GitConfigParse} {before : List GitConfigSection}
    {block : GitConfigSection} (hinside : state.inSection = true)
    (hsections : state.result.value.sections = before ++ [block]) :
    (state.step label (entryLine written)).inSection = true ∧
      (state.step label (entryLine written)).result.value.sections =
        before ++ [{ block with entries := block.entries ++
          [readEntry written] }] := by
  obtain ⟨rest, hline, -⟩ := trimmed_entryLine hkey
  obtain ⟨c, hc, -⟩ := hkey.isSolid.head
  obtain ⟨tail, htail⟩ := List.head?_eq_some_iff.mp hc
  have hname : isNameChar c = true := hkey.all c (by rw [htail]; simp)
  have hhead : (trimmed (entryLine written)).head? = some c := by
    rw [hline, htail]
    rfl
  have hne : trimmed (entryLine written) ≠ [] := by
    intro hnil
    rw [hnil] at hhead
    cases hhead
  have hmark : ∀ mark, isNameChar mark = false →
      (trimmed (entryLine written)).head? ≠ some mark := by
    intro mark hmark h
    obtain rfl := Option.some.inj (hhead.symm.trans h)
    rw [hname] at hmark
    cases hmark
  have hentry : state.step label (entryLine written) =
      state.entry label (trimmed (entryLine written)) := by
    rw [GitConfigParse.step, if_neg (not_lt.mpr hlength)]
    dsimp only
    rw [if_neg (not_or.mpr ⟨hne, not_or.mpr ⟨hmark '#' (by decide),
      hmark ';' (by decide)⟩⟩), if_neg (hmark '[' (by decide))]
  rw [hentry, GitConfigParse.entry, if_neg (by simp [hinside]),
    parseEntry_entryLine hkey,
    if_neg (toLowerAscii_ne_empty hkey.ne_empty)]
  refine ⟨hinside, ?_⟩
  dsimp only
  rw [addEntry, hsections, List.modifyLast_concat]
  rfl

theorem foldl_entryLines {written : List WrittenEntry}
    (hkeys : ∀ entry ∈ written, IsName entry.key)
    (hlengths : ∀ entry ∈ written, (entryLine entry).length ≤ maxLineBytes)
    {state : GitConfigParse} {before : List GitConfigSection}
    {block : GitConfigSection} (hinside : state.inSection = true)
    (hsections : state.result.value.sections = before ++ [block]) :
    ((written.map entryLine).foldl (GitConfigParse.step label)
        state).result.value.sections =
      before ++ [{ block with
        entries := block.entries ++ written.map readEntry }] := by
  induction written generalizing state block with
  | nil =>
    rw [List.map_nil, List.foldl_nil, List.map_nil, List.append_nil]
    exact hsections
  | cons entry written ih =>
    obtain ⟨hkey, hkeys⟩ := List.forall_mem_cons.mp hkeys
    obtain ⟨hlength, hlengths⟩ := List.forall_mem_cons.mp hlengths
    obtain ⟨hnext, hnextSections⟩ :=
      @step_entryLine label _ hkey hlength _ _ _ hinside hsections
    rw [List.map_cons, List.foldl_cons, ih hkeys hlengths hnext hnextSections,
      List.map_cons]
    simp

/-- A header opens a section. -/
theorem step_headerLine {written : WrittenSection} (hvalid : written.IsValid)
    (hbracket : ']' ∉ written.subsection.toList)
    (hlength : (headerLine written).length ≤ maxLineBytes)
    {state : GitConfigParse}
    (hroom : state.result.value.sections.length < maxSections) :
    (state.step label (headerLine written)).inSection = true ∧
      (state.step label (headerLine written)).result.value.sections =
        state.result.value.sections ++
          [{ readSection written with entries := [] }] := by
  have hsolid : IsSolid (headerLine written) := by
    refine ⟨⟨'[', rfl, rfl⟩, ⟨']', ?_, rfl⟩⟩
    rw [headerLine, ← List.append_assoc, ← List.cons_append]
    exact List.getLast?_concat
  have hheader : state.step label (headerLine written) =
      state.header label (headerLine written) := by
    rw [GitConfigParse.step, if_neg (not_lt.mpr hlength)]
    dsimp only
    rw [hsolid.trimmed_eq, if_neg (not_or.mpr ⟨hsolid.ne_nil, by
      simp [headerLine]⟩)]
    exact if_pos rfl
  rw [hheader, GitConfigParse.header, if_neg (not_le.mpr hroom),
    parseSectionHeader_headerLine hvalid hbracket]
  exact ⟨rfl, rfl⟩

theorem foldl_sectionLines {written : WrittenSection}
    (hvalid : written.IsValid) (hbracket : ']' ∉ written.subsection.toList)
    (hlengths : ∀ line ∈ sectionLines written, line.length ≤ maxLineBytes)
    {state : GitConfigParse}
    (hroom : state.result.value.sections.length < maxSections) :
    ((sectionLines written).foldl (GitConfigParse.step label)
        state).result.value.sections =
      state.result.value.sections ++ [readSection written] := by
  obtain ⟨hheader, hentries⟩ := List.forall_mem_cons.mp hlengths
  obtain ⟨hinside, hsections⟩ :=
    @step_headerLine label _ hvalid hbracket hheader _ hroom
  rw [sectionLines, List.foldl_cons, foldl_entryLines hvalid.keys
    (fun entry hentry => hentries _ (List.mem_map_of_mem hentry)) hinside
    hsections, List.nil_append]
  rfl

theorem foldl_configLines {written : List WrittenSection}
    (hvalid : ∀ block ∈ written, block.IsValid)
    (hbracket : ∀ block ∈ written, ']' ∉ block.subsection.toList)
    (hlengths : ∀ line ∈ written.flatMap sectionLines,
      line.length ≤ maxLineBytes)
    {state : GitConfigParse}
    (hroom : state.result.value.sections.length + written.length ≤
      maxSections) :
    ((written.flatMap sectionLines).foldl (GitConfigParse.step label)
        state).result.value.sections =
      state.result.value.sections ++ written.map readSection := by
  induction written generalizing state with
  | nil =>
    rw [List.flatMap_nil, List.foldl_nil, List.map_nil, List.append_nil]
  | cons block written ih =>
    obtain ⟨hblock, hvalid⟩ := List.forall_mem_cons.mp hvalid
    obtain ⟨hblockBracket, hbracket⟩ := List.forall_mem_cons.mp hbracket
    rw [List.flatMap_cons] at hlengths
    rw [List.length_cons] at hroom
    have hnext := @foldl_sectionLines label _ hblock hblockBracket
      (fun line hline => hlengths line (List.mem_append_left _ hline)) state
      (by omega)
    rw [List.flatMap_cons, List.foldl_append, ih hvalid hbracket
      (fun line hline => hlengths line (List.mem_append_right _ hline))
      (by rw [hnext, List.length_append, List.length_singleton]; omega),
      hnext, List.append_assoc, List.map_cons]
    rfl

end Run

theorem newline_notMem_name {name : String} (h : IsName name) :
    '\n' ∉ name.toList :=
  h.notMem (by decide)

theorem newline_notMem_escapedValue (text : List Char) :
    '\n' ∉ escapedValue text := by
  rw [escapedValue, List.mem_flatMap]
  rintro ⟨c, -, hmem⟩
  rcases escapedValueChar_cases c with ⟨d, hd, hblank⟩ | ⟨hc, -, hnewline, -⟩
  · rw [hd] at hmem
    have hne : '\n' ≠ d := by
      rintro rfl
      exact absurd hblank (by decide)
    simp [hne] at hmem
  · rw [hc, List.mem_singleton] at hmem
    exact hnewline hmem.symm

theorem newline_notMem_sectionLines {written : WrittenSection}
    (hvalid : written.IsValid) {line : List Char}
    (hline : line ∈ sectionLines written) : '\n' ∉ line := by
  rcases List.mem_cons.mp hline with rfl | hline
  · have hescaped : '\n' ∉ escapedQuotes written.subsection.toList := by
      rw [escapedQuotes, List.mem_flatMap]
      rintro ⟨c, hc, hmem⟩
      have hne : '\n' ≠ c := by
        rintro rfl
        exact hvalid.newline_notMem hc
      split_ifs at hmem
      · simp [hne] at hmem
      · simp [hne] at hmem
    rw [headerLine]
    split_ifs <;> simp [newline_notMem_name hvalid.name, hescaped]
  · obtain ⟨entry, hentry, rfl⟩ := List.mem_map.mp hline
    have hkey := newline_notMem_name (hvalid.keys entry hentry)
    have hvalue : '\n' ∉ writtenValue entry.value.toList := by
      rw [writtenValue]
      split_ifs <;> simp [newline_notMem_escapedValue]
    simp [entryLine, hkey, hvalue]

theorem head?_intercalate (separator : List Char) (c : Char) (line : List Char)
    (lines : List (List Char)) :
    (separator.intercalate ((c :: line) :: lines)).head? = some c := by
  cases lines with
  | nil => simp
  | cons next lines => simp [List.intercalate_cons_cons]

theorem withoutByteOrderMark_configText (written : List WrittenSection) :
    withoutByteOrderMark (configText written) = configText written := by
  have hhead : ∀ c ∈ (configText written).head?, c = '[' := by
    intro c hc
    cases written with
    | nil => simp [configText] at hc
    | cons block written =>
      have hlines : (block :: written).flatMap sectionLines ++ [[]] =
          ('[' :: (headerLine block).tail) :: (block.entries.map entryLine ++
            written.flatMap sectionLines ++ [[]]) := by
        rw [List.flatMap_cons]
        rfl
      rw [configText, hlines, head?_intercalate] at hc
      exact (Option.some.inj hc).symm
  rw [withoutByteOrderMark, if_neg]
  rw [List.isPrefixOf_iff_prefix]
  rintro ⟨rest, hrest⟩
  have hmark := hhead '\xEF' (by rw [← hrest]; rfl)
  exact absurd hmark (by decide)

theorem sections_parseGitConfig {written : List WrittenSection}
    (hwritten : IsWrittenConfig written)
    (hbracket : ∀ block ∈ written, ']' ∉ block.subsection.toList)
    (label : String) :
    (parseGitConfig label (configText written)).value.sections =
      written.map readSection := by
  have hlines : (configText written).splitOn '\n' =
      written.flatMap sectionLines ++ [[]] := by
    apply List.splitOn_intercalate _ _ (by simp)
    intro line hline
    rcases List.mem_append.mp hline with hline | hline
    · obtain ⟨block, hblock, hline⟩ := List.mem_flatMap.mp hline
      exact newline_notMem_sectionLines (hwritten.valid block hblock) hline
    · rw [List.mem_singleton.mp hline]
      simp
  have hblank : ∀ state : GitConfigParse, state.step label [] = state := by
    intro state
    rw [GitConfigParse.step, if_neg (by simp)]
    exact if_pos (.inl rfl)
  rw [parseGitConfig, withoutByteOrderMark_configText,
    List.take_of_length_le hwritten.bytes, hlines, List.foldl_append,
    List.foldl_cons, List.foldl_nil, hblank]
  have hstart : (Result.warnIf ({ value := {} } : Result GitConfig)
      (maxConfigBytes < (configText written).length) .fileSizeLimitExceeded
      (label ++ ": exceeds " ++ toString maxConfigBytes ++
        " bytes; parsing the first part only")).value.sections = [] := by
    rw [Result.warnIf, if_neg (by simpa using hwritten.bytes)]
  have hrun := @foldl_configLines label written hwritten.valid hbracket
    hwritten.lines
    { result := Result.warnIf ({ value := {} } : Result GitConfig)
        (maxConfigBytes < (configText written).length) .fileSizeLimitExceeded
        (label ++ ": exceeds " ++ toString maxConfigBytes ++
          " bytes; parsing the first part only") }
    (by rw [hstart]; simpa using hwritten.sections)
  rw [hrun, hstart, List.nil_append]

/-! ## Lookups -/

/-- A section name, a subsection and a key, as git compares them. -/
abbrev ConfigName := String × String × String

def configName (name subsection key : String) : ConfigName :=
  (toLowerAscii name, subsection, toLowerAscii key)

def namedEntries (written : WrittenSection) : List (ConfigName × String) :=
  written.entries.map fun entry =>
    (configName written.name written.subsection entry.key, entry.value)

/-- All values of a name, in the order of the file. -/
def valuesOf (written : List WrittenSection) (wanted : ConfigName) :
    List String :=
  ((written.flatMap namedEntries).filter (·.1 = wanted)).map Prod.snd

/-- What `git config --get` returns: the last value. -/
def gitGet (written : List WrittenSection) (name subsection key : String) :
    Option String :=
  (valuesOf written (configName name subsection key)).getLast?

/-- A subsection as it stands in the file. -/
def asWritten (subsection : String) : String :=
  String.ofList (escapedQuotes subsection.toList)

/-- A value as it stands in the file, without the quotes around it. -/
def valueAsWritten (value : String) : String :=
  String.ofList (escapedValue value.toList)

theorem escapedQuotes_injective : Function.Injective escapedQuotes := by
  have hcons : ∀ (c : Char) (text : List Char), escapedQuotes (c :: text) =
      (if c = '"' ∨ c = '\\' then ['\\', c] else [c]) ++ escapedQuotes text :=
    fun c text => List.flatMap_cons
  intro left
  induction left with
  | nil =>
    intro right h
    cases right with
    | nil => rfl
    | cons d right =>
      rw [hcons] at h
      split_ifs at h <;> cases h
  | cons c left ih =>
    intro right h
    cases right with
    | nil =>
      rw [hcons] at h
      split_ifs at h <;> cases h
    | cons d right =>
      rw [hcons, hcons] at h
      split_ifs at h with hc hd hd
      · simp only [List.cons_append, List.nil_append, List.cons.injEq,
          true_and] at h
        rw [h.1, ih h.2]
      · simp only [List.cons_append, List.nil_append, List.cons.injEq] at h
        exact absurd (Or.inr h.1.symm) hd
      · simp only [List.cons_append, List.nil_append, List.cons.injEq] at h
        exact absurd (Or.inr h.1) hc
      · simp only [List.cons_append, List.nil_append, List.cons.injEq] at h
        rw [h.1, ih h.2]

theorem asWritten_inj {left right : String} :
    asWritten left = asWritten right ↔ left = right := by
  constructor
  · intro h
    apply String.toList_inj.mp
    apply escapedQuotes_injective
    exact String.ofList_injective h
  · rintro rfl
    rfl

/-- In a section the first entry of a key is found. -/
theorem find?_readSection (written : WrittenSection) (name subsection key : String) :
    (if (readSection written).name = toLowerAscii name ∧
        (readSection written).subsection = asWritten subsection then
      (readSection written).find? key
    else none) = (((namedEntries written).filter
        (·.1 = configName name subsection key)).head?.map Prod.snd).map
          valueAsWritten := by
  have hsubsection : (readSection written).subsection = asWritten subsection ↔
      written.subsection = subsection := asWritten_inj
  by_cases hblock : toLowerAscii written.name = toLowerAscii name ∧
      written.subsection = subsection
  · rw [if_pos ⟨hblock.1, hsubsection.mpr hblock.2⟩]
    obtain ⟨hsame, rfl⟩ := hblock
    rw [GitConfigSection.find?, readSection, namedEntries]
    dsimp only
    induction written.entries with
    | nil => rfl
    | cons entry entries ih =>
      rw [List.map_cons, List.map_cons]
      by_cases hkey : toLowerAscii entry.key = toLowerAscii key
      · rw [List.find?_cons_of_pos (by simp [readEntry, hkey]),
          List.filter_cons_of_pos (by simp [configName, hsame, hkey])]
        rfl
      · rw [List.find?_cons_of_neg (by simp [readEntry, hkey]),
          List.filter_cons_of_neg (by simp [configName, hkey])]
        exact ih
  · have hnone : (namedEntries written).filter
        (·.1 = configName name subsection key) = [] := by
      rw [List.filter_eq_nil_iff, namedEntries]
      intro named hnamed
      obtain ⟨entry, -, rfl⟩ := List.mem_map.mp hnamed
      simp only [configName, decide_eq_true_eq, Prod.mk.injEq]
      rintro ⟨hsame, hsub, -⟩
      exact hblock ⟨hsame, hsub⟩
    rw [if_neg fun h => hblock ⟨h.1, hsubsection.mp h.2⟩, hnone]
    rfl

/-- Over all sections the first entry of a key is found. -/
theorem find?_readSections (written : List WrittenSection)
    (name subsection key : String) :
    GitConfig.find? ⟨written.map readSection⟩ name (asWritten subsection) key =
      (valuesOf written (configName name subsection key)).head?.map
        valueAsWritten := by
  rw [GitConfig.find?, valuesOf]
  induction written with
  | nil => rfl
  | cons block written ih =>
    rw [List.map_cons, List.findSome?_cons, find?_readSection,
      List.flatMap_cons, List.filter_append, List.map_append]
    cases (namedEntries block).filter
        (·.1 = configName name subsection key) with
    | nil => exact ih
    | cons first rest => rfl

/-! ## What is found -/

/-- Nothing of the text is escaped. -/
def IsPlainText (text : String) : Prop :=
  ∀ c ∈ text.toList, c ≠ '"' ∧ c ≠ '\\' ∧ c ≠ '\n' ∧ c ≠ '\t'

theorem asWritten_of_isPlainText {text : String} (h : IsPlainText text) :
    asWritten text = text := by
  have hsame : ∀ text : List Char, (∀ c ∈ text, c ≠ '"' ∧ c ≠ '\\') →
      escapedQuotes text = text := by
    intro text htext
    induction text with
    | nil => rfl
    | cons c text ih =>
      obtain ⟨hc, hrest⟩ := List.forall_mem_cons.mp htext
      rw [escapedQuotes, List.flatMap_cons, if_neg (by simp [hc]),
        ← escapedQuotes, ih hrest]
      rfl
  rw [asWritten, hsame _ fun c hc => ⟨(h c hc).1, (h c hc).2.1⟩,
    String.ofList_toList]

theorem valueAsWritten_of_isPlainText {text : String} (h : IsPlainText text) :
    valueAsWritten text = text := by
  have hsame : ∀ text : List Char,
      (∀ c ∈ text, c ≠ '"' ∧ c ≠ '\\' ∧ c ≠ '\n' ∧ c ≠ '\t') →
      escapedValue text = text := by
    intro text htext
    induction text with
    | nil => rfl
    | cons c text ih =>
      obtain ⟨hc, hrest⟩ := List.forall_mem_cons.mp htext
      rw [escapedValue_cons, ih hrest, escapedValueChar,
        if_neg (by simp [hc]), if_neg hc.2.2.1, if_neg hc.2.2.2]
      rfl
  rw [valueAsWritten, hsame _ h, String.ofList_toList]

/-- A lookup finds the first value of a key, with the texts as they stand in
the file between quotes.  That is what git returns for a plain subsection and a
key whose values are one plain text. -/
structure FindsFirst (config : GitConfig) (written : List WrittenSection) :
    Prop where
  first : ∀ name subsection key, config.find? name (asWritten subsection) key =
      (valuesOf written (configName name subsection key)).head?.map
        valueAsWritten
  git : ∀ name subsection key value, IsPlainText subsection →
    IsPlainText value →
      (∀ other ∈ valuesOf written (configName name subsection key),
        other = value) →
        config.find? name subsection key = gitGet written name subsection key

theorem findsFirst_parseGitConfig {written : List WrittenSection}
    (hwritten : IsWrittenConfig written)
    (hbracket : ∀ block ∈ written, ']' ∉ block.subsection.toList)
    (label : String) :
    FindsFirst (parseGitConfig label (configText written)).value written := by
  have hfirst : ∀ name subsection key,
      (parseGitConfig label (configText written)).value.find? name
        (asWritten subsection) key =
        (valuesOf written (configName name subsection key)).head?.map
          valueAsWritten := by
    intro name subsection key
    rw [← find?_readSections, GitConfig.find?, GitConfig.find?,
      sections_parseGitConfig hwritten hbracket]
  refine ⟨hfirst, ?_⟩
  intro name subsection key value hsubsection hvalue hsame
  have h := hfirst name subsection key
  rw [asWritten_of_isPlainText hsubsection] at h
  rw [h, gitGet]
  have hrepeat := List.eq_replicate_iff.mpr ⟨rfl, hsame⟩
  rw [hrepeat]
  cases (valuesOf written (configName name subsection key)).length with
  | zero => rfl
  | succ count =>
    have hlast : (List.replicate (count + 1) value).getLast? = some value := by
      simp [List.getLast?_replicate]
    rw [hlast, List.replicate_succ, List.head?_cons, Option.map_some,
      valueAsWritten_of_isPlainText hvalue]

def repeatedKey : List WrittenSection :=
  [⟨"remote", "origin", [⟨"url", "a"⟩, ⟨"url", "b"⟩]⟩]

theorem isWrittenConfig_repeatedKey : IsWrittenConfig repeatedKey where
  valid := by
    intro block hblock
    rw [List.mem_singleton.mp hblock]
    have hname : ∀ name : String, name ≠ "" →
        name.toList.all isNameChar = true → IsName name :=
      fun name hne hall => ⟨hne, List.all_eq_true.mp hall⟩
    refine ⟨hname _ (by decide) (by decide), by decide, ?_⟩
    intro entry hentry
    rcases List.mem_cons.mp hentry with rfl | hentry
    · exact hname _ (by decide) (by decide)
    · rw [List.mem_singleton.mp hentry]
      exact hname _ (by decide) (by decide)
  lines := by decide
  sections := by decide
  bytes := by decide

theorem findsFirst_repeatedKey :
    FindsFirst (parseGitConfig "config" (configText repeatedKey)).value
      repeatedKey :=
  findsFirst_parseGitConfig isWrittenConfig_repeatedKey (by decide) "config"

/-- Git returns the last value. -/
theorem not_forall_find_eq_gitGet :
    ¬ ∀ written : List WrittenSection, IsWrittenConfig written →
      ∀ name subsection key,
        (parseGitConfig "config" (configText written)).value.find? name
            subsection key = gitGet written name subsection key := by
  intro h
  have heq := h repeatedKey isWrittenConfig_repeatedKey "remote" "origin" "url"
  rw [GitConfig.find?, sections_parseGitConfig isWrittenConfig_repeatedKey
    (by decide)] at heq
  exact absurd heq (by decide)

end GitConfigWriting
end Bomwerk.Core
