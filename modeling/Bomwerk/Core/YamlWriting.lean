import Bomwerk.Core.YamlSubset

/-!
# Written YAML

What the reader of the YAML subset makes of the lines a lockfile writer emits:
keys with nothing behind them, and scalar fields, in quotes or not.
-/

namespace Bomwerk.Core

/-- A text without blanks at its ends. -/
structure IsSolid (text : List Char) : Prop where
  head : ∃ c ∈ text.head?, isAsciiBlank c = false
  last : ∃ c ∈ text.getLast?, isAsciiBlank c = false

theorem IsSolid.ne_nil {text : List Char} (hsolid : IsSolid text) :
    text ≠ [] := by
  rintro rfl
  obtain ⟨c, hc, -⟩ := hsolid.head
  simp at hc

theorem IsSolid.trimmed_eq {text : List Char} (hsolid : IsSolid text) :
    trimmed text = text := by
  obtain ⟨first, hfirst, hfirstSolid⟩ := hsolid.head
  obtain ⟨last, hlast, hlastSolid⟩ := hsolid.last
  obtain ⟨front, rfl⟩ := List.getLast?_eq_some_iff.mp hlast
  have hdrop : (front ++ [last]).dropWhile isAsciiBlank = front ++ [last] := by
    obtain ⟨rest, hrest⟩ := List.head?_eq_some_iff.mp hfirst
    rw [hrest, List.dropWhile_cons_of_neg (by simp [hfirstSolid])]
  rw [trimmed, hdrop, List.rdropWhile_concat_neg _ _ _ (by simp [hlastSolid])]

theorem trimmed_replicate_append {count : Nat} {text : List Char}
    (hsolid : IsSolid text) :
    trimmed (List.replicate count ' ' ++ text) = text := by
  have hblank : ∀ c ∈ List.replicate count ' ', isAsciiBlank c = true := by
    intro c hc
    rw [List.eq_of_mem_replicate hc]
    decide
  rw [trimmed, List.dropWhile_append_of_pos hblank]
  exact hsolid.trimmed_eq

theorem IsSolid.append {front text : List Char} (htext : IsSolid text)
    (hfront : ∃ c ∈ front.head?, isAsciiBlank c = false) :
    IsSolid (front ++ text) := by
  obtain ⟨first, hfirst, hsolid⟩ := hfront
  obtain ⟨last, hlast, hlastSolid⟩ := htext.last
  obtain ⟨rest, rfl⟩ := List.head?_eq_some_iff.mp hfirst
  obtain ⟨body, rfl⟩ := List.getLast?_eq_some_iff.mp hlast
  constructor
  · exact ⟨first, rfl, hsolid⟩
  · refine ⟨last, ?_, hlastSolid⟩
    rw [← List.append_assoc]
    exact List.getLast?_concat

theorem isSolid_of_forall {text : List Char} (hne : text ≠ [])
    (htext : ∀ c ∈ text, isAsciiBlank c = false) : IsSolid text where
  head := ⟨_, List.head?_eq_some_head hne, htext _ (List.head_mem hne)⟩
  last := ⟨_, List.getLast?_eq_some_getLast hne, htext _ (List.getLast_mem hne)⟩

namespace YamlSubset

section Scan

variable {stop : Option Char → Char → List Char → Bool}

theorem splitOutsideQuotes_of_forall {text : List Char}
    (htext : ∀ c ∈ text, isQuote c = false ∧
      ∀ previous rest, stop previous c rest = false)
    (previous : Option Char) :
    splitOutsideQuotes stop none previous text = (text, []) := by
  induction text generalizing previous with
  | nil => rfl
  | cons c text ih =>
    rw [List.forall_mem_cons] at htext
    obtain ⟨⟨hquote, hstop⟩, hrest⟩ := htext
    rw [splitOutsideQuotes]
    simp [hquote, hstop, ih hrest]

theorem splitOutsideQuotes_inside {quote : Char} {body : List Char}
    (hbody : ∀ c ∈ body, c ≠ quote ∧ (quote = '"' → c ≠ '\\'))
    (hquote : quote ≠ '\\')
    (previous : Option Char) (rest : List Char) :
    splitOutsideQuotes stop (some quote) previous (body ++ quote :: rest) =
      (body ++ quote :: (splitOutsideQuotes stop none (some quote) rest).1,
          (splitOutsideQuotes stop none (some quote) rest).2) := by
  induction body generalizing previous with
  | nil =>
    rw [List.nil_append, splitOutsideQuotes.eq_def]
    simp [hquote]
  | cons c body ih =>
    rw [List.forall_mem_cons] at hbody
    obtain ⟨⟨hclose, hslash⟩, hlater⟩ := hbody
    have hescape : ¬(c = '\\' ∧ quote = '"') := fun h => hslash h.2 h.1
    rw [List.cons_append, splitOutsideQuotes.eq_def]
    simp [hclose, hescape, ih hlater]

theorem splitOutsideQuotes_quoted {quote : Char} {body : List Char}
    (hquote : isQuote quote = true)
    (hbody : ∀ c ∈ body, c ≠ quote ∧ (quote = '"' → c ≠ '\\'))
    (previous : Option Char) (rest : List Char) :
    splitOutsideQuotes stop none previous
        (quote :: (body ++ quote :: rest)) =
      (quote :: (body ++ quote ::
        (splitOutsideQuotes stop none (some quote) rest).1),
          (splitOutsideQuotes stop none (some quote) rest).2) := by
  have hslash : quote ≠ '\\' := by
    rintro rfl
    exact absurd hquote (by decide)
  rw [splitOutsideQuotes]
  simp [hquote, splitOutsideQuotes_inside hbody hslash]

/-- A plain text is passed over, whatever stands behind it. -/
theorem splitOutsideQuotes_stop {text : List Char}
    (htext : ∀ c ∈ text, isQuote c = false ∧
      ∀ previous rest, stop previous c rest = false)
    (previous : Option Char) (c : Char) (hc : isQuote c = false)
    (rest : List Char) (hstop : ∀ previous, stop previous c rest = true) :
    splitOutsideQuotes stop none previous (text ++ c :: rest) =
      (text, c :: rest) := by
  induction text generalizing previous with
  | nil =>
    rw [List.nil_append, splitOutsideQuotes]
    simp [hc, hstop]
  | cons d text ih =>
    rw [List.forall_mem_cons] at htext
    obtain ⟨⟨hquote, hgo⟩, hlater⟩ := htext
    rw [List.cons_append, splitOutsideQuotes]
    simp [hquote, hgo, ih hlater]

/-- A front without quotes that the scan does not stop at. -/
theorem splitOutsideQuotes_append_of_forall {front : List Char}
    (hfront : ∀ c ∈ front, isQuote c = false ∧
      ∀ previous rest, stop previous c rest = false)
    (previous : Option Char) (rest : List Char) (last : Option Char)
    (hlast : front.getLast?.or previous = last) :
    splitOutsideQuotes stop none previous (front ++ rest) =
      (front ++ (splitOutsideQuotes stop none last rest).1,
        (splitOutsideQuotes stop none last rest).2) := by
  induction front generalizing previous with
  | nil =>
    subst hlast
    rfl
  | cons c front ih =>
    rw [List.forall_mem_cons] at hfront
    obtain ⟨⟨hquote, hstop⟩, hlater⟩ := hfront
    have hlast' : front.getLast?.or (some c) = last := by
      rw [← hlast]
      cases front with
      | nil => rfl
      | cons d front =>
        rw [List.getLast?_cons_cons, List.getLast?_eq_some_getLast (by simp)]
        rfl
    rw [List.cons_append, splitOutsideQuotes]
    simp [hquote, hstop, ih hlater (some c) hlast']

end Scan

theorem withoutComment_of_notMem {content : List Char}
    (hcontent : '#' ∉ content) : withoutComment content = content := by
  have hstop : ∀ (openQuote previous : Option Char) (text : List Char),
      '#' ∉ text →
        (splitOutsideQuotes startsComment openQuote previous text).1 =
          text := by
    intro openQuote previous text
    fun_induction splitOutsideQuotes startsComment openQuote previous text <;>
      simp_all [startsComment]
  exact hstop none none content hcontent

/-! ## Keys and values -/

/-- A text as a writer spells it: in the given quotes, or plain. -/
def spelled (quote? : Option Char) (text : List Char) : List Char :=
  match quote? with
  | some quote => quote :: (text ++ [quote])
  | none => text

/-- A text that its quotes, or their absence, do not change. -/
structure IsSpellable (quote? : Option Char) (text : List Char) : Prop where
  ne_nil : text ≠ []
  isSolid : quote? = none → IsSolid text
  isQuote : ∀ quote ∈ quote?, isQuote quote = true
  plain : ∀ c ∈ text, YamlSubset.isQuote c = false ∧ c ≠ '\\' ∧ c ≠ '#'

section Spelling

variable {quote? : Option Char} {text : List Char}

theorem IsSpellable.isSolid_spelled (hspellable : IsSpellable quote? text) :
    IsSolid (spelled quote? text) := by
  cases hquote : quote? with
  | none => exact hspellable.isSolid hquote
  | some quote =>
    have hblank : isAsciiBlank quote = false := by
      have h := hspellable.isQuote quote hquote
      simp only [YamlSubset.isQuote, decide_eq_true_eq] at h
      rcases h with rfl | rfl <;> decide
    constructor
    · exact ⟨quote, by simp [spelled], hblank⟩
    · exact ⟨quote, List.getLast?_eq_some_iff.mpr ⟨quote :: text, rfl⟩, hblank⟩

theorem unquoted_quoted {quote : Char} (hquote : isQuote quote = true)
    (hne : text ≠ []) : unquoted (spelled (some quote) text) = text := by
  obtain ⟨c, rest, rfl⟩ := List.exists_cons_of_ne_nil hne
  have hlast : (c :: (rest ++ [quote])).getLast? = some quote :=
    List.getLast?_eq_some_iff.mpr ⟨c :: rest, rfl⟩
  have hdrop : (c :: (rest ++ [quote])).dropLast = c :: rest := by
    rw [← List.cons_append]
    exact List.dropLast_concat
  simp only [spelled, List.cons_append, unquoted, hquote, hlast, hdrop,
    and_self, if_true]

theorem IsSpellable.unquoted_spelled (hspellable : IsSpellable quote? text) :
    unquoted (spelled quote? text) = text := by
  cases hquote : quote? with
  | none =>
    cases text with
    | nil => rfl
    | cons c rest =>
      cases rest with
      | nil => rfl
      | cons d rest =>
        have hplain := (hspellable.plain c (by simp)).1
        simp [spelled, unquoted, hplain]
  | some quote =>
    exact unquoted_quoted (hspellable.isQuote quote hquote)
      hspellable.ne_nil

theorem IsSpellable.notMem_hash (hspellable : IsSpellable quote? text) :
    '#' ∉ spelled quote? text := by
  have htext : '#' ∉ text := fun hmem =>
    (hspellable.plain '#' hmem).2.2 rfl
  cases hquote : quote? with
  | none => exact htext
  | some quote =>
    have h := hspellable.isQuote quote hquote
    have hne : '#' ≠ quote := by
      rintro rfl
      exact absurd h (by decide)
    simp [spelled, hne, htext]

/-- The key of a line is found, whatever its quotes hold. -/
theorem IsSpellable.splitKey?_eq (hspellable : IsSpellable quote? text)
    (hcolon : quote? = none → ':' ∉ text) {value : List Char}
    (hvalue : value = [] ∨ value.head? = some ' ') :
    splitKey? (spelled quote? text ++ ':' :: value) =
      some (spelled quote? text, value) := by
  have hstop : ∀ previous, separatesKey previous ':' value = true := by
    intro previous
    simpa [separatesKey] using hvalue
  cases hquote : quote? with
  | none =>
    have hplain : ∀ c ∈ text, YamlSubset.isQuote c = false ∧
        ∀ previous rest, separatesKey previous c rest = false := by
      intro c hc
      refine ⟨(hspellable.plain c hc).1, fun previous rest => ?_⟩
      have hne : c ≠ ':' := by
        rintro rfl
        exact hcolon hquote hc
      simp [separatesKey, hne]
    rw [splitKey?, spelled, splitOutsideQuotes_stop hplain none ':'
      (by decide) value hstop]
  | some quote =>
    have h := hspellable.isQuote quote hquote
    have hbody : ∀ c ∈ text, c ≠ quote ∧ (quote = '"' → c ≠ '\\') := by
      intro c hc
      obtain ⟨hplain, hslash, -⟩ := hspellable.plain c hc
      refine ⟨?_, fun _ => hslash⟩
      rintro rfl
      rw [h] at hplain
      exact absurd hplain (by simp)
    have hbehind : splitOutsideQuotes separatesKey none (some quote)
        (':' :: value) = ([], ':' :: value) := by
      rw [splitOutsideQuotes]
      simp [YamlSubset.isQuote, hstop]
    have hscan := @splitOutsideQuotes_quoted separatesKey quote text h hbody
      none (':' :: value)
    rw [hbehind] at hscan
    rw [splitKey?, spelled, List.cons_append, List.append_assoc,
      List.singleton_append, hscan]

end Spelling

/-! ## Lines -/

/-- A first character that opens nothing but a mapping. -/
def opensMapping (c : Char) : Bool :=
  c ≠ '-' ∧ c ≠ '.' ∧ c ≠ '[' ∧ isAnchorAliasTag c = false

theorem isUnsupportedStart_cons {c : Char} (hc : opensMapping c = true)
    (rest : List Char) : isUnsupportedStart (c :: rest) = false := by
  simp only [opensMapping, decide_eq_true_eq] at hc
  obtain ⟨hdash, hdot, hbracket, htag⟩ := hc
  simp [isUnsupportedStart, isSequenceMarker, List.isPrefixOf,
    beq_eq_false_iff_ne.mpr (Ne.symm hdash),
    beq_eq_false_iff_ne.mpr (Ne.symm hdot), hdash, hbracket, htag]

/-- A first character that opens a scalar on its line, or a flow mapping. -/
def opensValue (c : Char) : Bool :=
  c ≠ '|' ∧ c ≠ '>' ∧ c ≠ '[' ∧ isAnchorAliasTag c = false

section Values

variable {value : List Char}
  (hvalue : ∀ c ∈ value.head?, opensValue c = true)

include hvalue

theorem opensBlockScalar_eq_false : opensBlockScalar value = false := by
  rw [opensBlockScalar, decide_eq_false_iff_not]
  rintro (hbar | hfold)
  · exact absurd (hvalue _ hbar) (by decide)
  · exact absurd (hvalue _ hfold) (by decide)

theorem isUnsupportedValue_eq_false : isUnsupportedValue value = false := by
  cases value with
  | nil => rfl
  | cons c rest =>
    have hc := hvalue c rfl
    rw [opensValue, decide_eq_true_eq] at hc
    simp [isUnsupportedValue, hc]

end Values

theorem leadingSpaceCount_replicate_append (count : Nat) {first : Char}
    (hfirst : first ≠ ' ') (rest : List Char) :
    leadingSpaceCount (List.replicate count ' ' ++ first :: rest) = count := by
  have hspaces : ∀ c ∈ List.replicate count ' ', decide (c = ' ') = true := by
    intro c hc
    simpa using List.eq_of_mem_replicate hc
  rw [leadingSpaceCount, List.takeWhile_append_of_pos hspaces]
  simp [hfirst]

/-- A line of its own indentation. -/
theorem readLine_uncommented (indentation : Nat) {content : List Char}
    (hsolid : IsSolid content) (hcomment : withoutComment content = content) :
    readLine none (List.replicate indentation ' ' ++ content) =
      readContent indentation content := by
  obtain ⟨first, hfirst, hfirstSolid⟩ := hsolid.head
  obtain ⟨rest, rfl⟩ := List.head?_eq_some_iff.mp hfirst
  have hspace : first ≠ ' ' := by
    rintro rfl
    exact absurd hfirstSolid (by decide)
  have htab : first ≠ '\t' := by
    rintro rfl
    exact absurd hfirstSolid (by decide)
  have hcount := leadingSpaceCount_replicate_append indentation hspace rest
  have hdrop : (List.replicate indentation ' ' ++ first :: rest).drop
      indentation = first :: rest := by
    rw [List.drop_append_of_le_length (by simp)]
    simp
  have htrimmed := @trimmed_replicate_append indentation _ hsolid
  rw [readLine, htrimmed, if_neg (by simp), hcount]
  simp [hdrop, htab, hcomment, hsolid.trimmed_eq]

theorem readLine_indented (indentation : Nat) {content : List Char}
    (hsolid : IsSolid content) (hhash : '#' ∉ content) :
    readLine none (List.replicate indentation ' ' ++ content) =
      readContent indentation content :=
  readLine_uncommented indentation hsolid (withoutComment_of_notMem hhash)

section Mappings

variable {quote? : Option Char} {key : List Char}

theorem readLine_key (hkey : IsSpellable quote? key)
    (hcolon : quote? = none → ':' ∉ key)
    (hstart : ∀ c ∈ (spelled quote? key).head?, opensMapping c = true)
    (indentation : Nat) :
    readLine none (List.replicate indentation ' ' ++
        (spelled quote? key ++ [':'])) =
      (none, .node (nodeOf indentation key [])) := by
  have hsolid := hkey.isSolid_spelled
  obtain ⟨first, hfirst, hfirstSolid⟩ := hsolid.head
  obtain ⟨rest, hrest⟩ := List.head?_eq_some_iff.mp hfirst
  have hcontent : IsSolid (spelled quote? key ++ [':']) := by
    constructor
    · exact ⟨first, by simp [hrest], hfirstSolid⟩
    · exact ⟨':', by simp, by decide⟩
  have hsupported : isUnsupportedStart (spelled quote? key ++ [':']) =
      false := by
    rw [hrest, List.cons_append]
    exact isUnsupportedStart_cons (hstart first hfirst) _
  have hsplit := hkey.splitKey?_eq hcolon (.inl (rfl : ([] : List Char) = []))
  rw [readLine_indented indentation hcontent (by simp [hkey.notMem_hash]),
    readContent, if_neg hcontent.ne_nil, hsupported, if_neg (by simp), hsplit]
  have htrimmed : trimmed [] = [] := rfl
  simp [hsolid.trimmed_eq, hkey.unquoted_spelled, hkey.ne_nil, htrimmed,
    opensBlockScalar, isUnsupportedValue]

/-- The line of a key with a value on it. -/
theorem readLine_uncommentedField (hkey : IsSpellable quote? key)
    (hcolon : quote? = none → ':' ∉ key)
    (hstart : ∀ c ∈ (spelled quote? key).head?, opensMapping c = true)
    (indentation : Nat) {value : List Char} (hvalue : IsSolid value)
    (hcomment : withoutComment (spelled quote? key ++ ':' :: ' ' :: value) =
      spelled quote? key ++ ':' :: ' ' :: value)
    (hopens : ∀ c ∈ value.head?, opensValue c = true) :
    readLine none (List.replicate indentation ' ' ++
        (spelled quote? key ++ ':' :: ' ' :: value)) =
      (none, .node (nodeOf indentation key value)) := by
  have hsolid := hkey.isSolid_spelled
  obtain ⟨first, hfirst, hfirstSolid⟩ := hsolid.head
  obtain ⟨last, hlast, hlastSolid⟩ := hvalue.last
  obtain ⟨rest, hrest⟩ := List.head?_eq_some_iff.mp hfirst
  have hcontent : IsSolid (spelled quote? key ++ ':' :: ' ' :: value) := by
    constructor
    · exact ⟨first, by simp [hrest], hfirstSolid⟩
    · obtain ⟨front, rfl⟩ := List.getLast?_eq_some_iff.mp hlast
      refine ⟨last, List.getLast?_eq_some_iff.mpr
        ⟨spelled quote? key ++ ':' :: ' ' :: front, ?_⟩, hlastSolid⟩
      simp
  have hsupported : isUnsupportedStart
      (spelled quote? key ++ ':' :: ' ' :: value) = false := by
    rw [hrest, List.cons_append]
    exact isUnsupportedStart_cons (hstart first hfirst) _
  have hsplit := @IsSpellable.splitKey?_eq _ _ hkey hcolon (' ' :: value)
    (.inr rfl)
  have htrimmed : trimmed (' ' :: value) = value :=
    @trimmed_replicate_append 1 value hvalue
  rw [readLine_uncommented indentation hcontent hcomment,
    readContent, if_neg hcontent.ne_nil, hsupported, if_neg (by simp), hsplit]
  simp [hsolid.trimmed_eq, hkey.unquoted_spelled, hkey.ne_nil, htrimmed,
    opensBlockScalar_eq_false hopens, isUnsupportedValue_eq_false hopens]

theorem readLine_field (hkey : IsSpellable quote? key)
    (hcolon : quote? = none → ':' ∉ key)
    (hstart : ∀ c ∈ (spelled quote? key).head?, opensMapping c = true)
    (indentation : Nat) {value : List Char} (hvalue : IsSolid value)
    (hhash : '#' ∉ value)
    (hopens : ∀ c ∈ value.head?, opensValue c = true) :
    readLine none (List.replicate indentation ' ' ++
        (spelled quote? key ++ ':' :: ' ' :: value)) =
      (none, .node (nodeOf indentation key value)) := by
  apply readLine_uncommentedField hkey hcolon hstart indentation hvalue _ hopens
  exact withoutComment_of_notMem (by simp [hkey.notMem_hash, hhash])

theorem field_eq {line key : List Char} {count : Nat}
    (hline : line = List.replicate count ' ' ++ (key ++ [':', ' ']))
    (value : List Char) :
    line ++ value =
      List.replicate count ' ' ++ (key ++ ':' :: ' ' :: value) := by
  rw [hline]
  simp only [List.append_assoc, List.cons_append, List.nil_append]

theorem readLine_field_of_eq {line value : List Char} {count : Nat}
    (hline : line = List.replicate count ' ' ++ (key ++ [':', ' ']))
    (hkey : IsSpellable none key) (hcolon : ':' ∉ key)
    (hstart : ∀ c ∈ key.head?, opensMapping c = true)
    (hvalue : IsSolid value) (hhash : '#' ∉ value)
    (hopens : ∀ c ∈ value.head?, opensValue c = true) :
    readLine none (line ++ value) = (none, .node (nodeOf count key value)) := by
  rw [field_eq hline]
  exact readLine_field hkey (fun _ => hcolon) hstart count hvalue hhash hopens

theorem nodeOf_quoted (indentation : Nat) {name text : List Char}
    {quote : Char} (hquote : isQuote quote = true) (htext : text ≠ []) :
    nodeOf indentation name (spelled (some quote) text) =
      { indentation := indentation, key := name, value := text,
        opensBlock := false, isFlowMapping := false } := by
  have hne : quote ≠ '{' := by
    rintro rfl
    exact absurd hquote (by decide)
  have hflow : isFlowMapping (spelled (some quote) text) = false := by
    simp [isFlowMapping, spelled, hne]
  rw [nodeOf, hflow, unquoted_quoted hquote htext]
  simp [spelled]

theorem nodeOf_spelled (indentation : Nat) {name text : List Char}
    {quote : Char} (htext : IsSpellable (some quote) text) :
    nodeOf indentation name (spelled (some quote) text) =
      { indentation := indentation, key := name, value := text,
        opensBlock := false, isFlowMapping := false } :=
  nodeOf_quoted indentation (htext.isQuote quote rfl) htext.ne_nil

end Mappings

theorem readLines_of_map {lines more : List (List Char)}
    {results : List LineResult}
    (hlines : lines.map (readLine none) = results.map (Prod.mk none)) :
    readLines none (lines ++ more) = results ++ readLines none more := by
  induction lines generalizing results with
  | nil =>
    obtain rfl := List.map_eq_nil_iff.mp hlines.symm
    rfl
  | cons line lines ih =>
    obtain ⟨result, results, rfl, hline, hrest⟩ :=
      List.map_eq_cons_iff.mp hlines.symm
    have hread : readLine none line = (none, result) := hline.symm
    simp only [List.cons_append, readLines, hread, ih hrest.symm]

end YamlSubset
end Bomwerk.Core
