import Bomwerk.Ci.UsesEntries

/-!
# The `uses` entries of a document

The scan finds them all, and nothing else, exactly when each can be read on its
line and no line in front of it is taken for the opening of a block scalar that
would hold it.
-/

namespace Bomwerk.Ci.GithubActions

open Bomwerk.Core Bomwerk.Support

theorem isUses_readLine_iff {blockScalarIndentation : Option Nat}
    {rawLine : List Char} :
    (readLine blockScalarIndentation rawLine).2.isUses = true ↔
      trimmed rawLine ≠ [] ∧
        ¬blockScalarIndentation.any (· < leadingSpaceCount rawLine) = true ∧
          (lineReading rawLine).isUses = true := by
  rw [readLine]
  by_cases hblank : trimmed rawLine = []
  · simp [hblank, LineReading.isUses, LineReading.usesValue?]
  · rw [if_neg hblank]
    by_cases hskipped :
        blockScalarIndentation.any (· < leadingSpaceCount rawLine) = true
    · simp [hblank, hskipped, LineReading.isUses, LineReading.usesValue?]
    · simp [hblank, hskipped]

theorem lineReading_comment {blanks : List Char} (hblanks : IsSeparation blanks)
    (text : List Char) :
    (lineReading (blanks ++ '#' :: text)).isUses = false := by
  have hspaces : blanks.takeWhile (· = ' ') =
      List.replicate (blanks.takeWhile (· = ' ')).length ' ' := by
    rw [List.eq_replicate_iff]
    refine ⟨rfl, fun c hc => ?_⟩
    simpa using List.mem_takeWhile_imp hc
  have hsplit := List.takeWhile_append_dropWhile (p := (· = ' ')) (l := blanks)
  generalize (blanks.takeWhile (· = ' ')).length = count at hspaces
  rw [hspaces] at hsplit
  cases hback : blanks.dropWhile (· = ' ') with
  | nil =>
    rw [hback, List.append_nil] at hsplit
    have hcount := YamlSubset.leadingSpaceCount_replicate_append count
      (by decide : '#' ≠ ' ') text
    have hcomment : withoutInlineComment ('#' :: text) = [] := by
      simp [withoutInlineComment, YamlSubset.withoutComment,
        YamlSubset.splitOutsideQuotes, YamlSubset.isQuote,
        YamlSubset.startsComment]
    rw [← hsplit, lineReading, hcount]
    simp [hcomment, trimmed, withoutSequenceMarker, contentReading,
      parseKeyValue, YamlSubset.splitKey?, YamlSubset.splitOutsideQuotes,
      LineReading.isUses, LineReading.usesValue?]
  | cons c more =>
    rw [hback] at hsplit
    have hc : c = '\t' := by
      have hnot := List.head?_dropWhile_not (· = ' ') blanks
      rw [hback] at hnot
      have hne : c ≠ ' ' := by simpa using hnot
      have hmem : c ∈ blanks := by
        rw [← hsplit]
        simp
      exact (hblanks c hmem).resolve_left hne
    have hcount := YamlSubset.leadingSpaceCount_replicate_append count
      (by decide : '\t' ≠ ' ') (more ++ '#' :: text)
    rw [← hsplit, hc, List.append_assoc, List.cons_append, lineReading, hcount]
    simp [LineReading.isUses, LineReading.usesValue?]

def DocumentLine.IsWritten : DocumentLine → Prop
  | blank text => trimmed text = []
  | comment blanks _ => IsSeparation blanks
  | node line => line.IsWritten
  | body _ => True

theorem isWritten_of_mem {lines : List DocumentLine} (h : IsDocument lines) :
    ∀ line ∈ lines, line.IsWritten := by
  induction h with
  | nil => simp
  | blank hblank _ _ ih => exact List.forall_mem_cons.mpr ⟨hblank, ih⟩
  | comment hblanks _ _ ih => exact List.forall_mem_cons.mpr ⟨hblanks, ih⟩
  | node hline _ _ ih => exact List.forall_mem_cons.mpr ⟨hline, ih⟩
  | block hline _ _ _ ih =>
    rw [List.forall_mem_cons]
    refine ⟨hline, fun line hmem => ?_⟩
    rcases List.mem_append.mp hmem with hbody | hrest
    · obtain ⟨text, -, rfl⟩ := List.mem_map.mp hbody
      trivial
    · exact ih line hrest

def stateBehind (lines : List DocumentLine) : Option Nat :=
  (lines.map DocumentLine.text).foldl
    (blockStep isBlankLine leadingSpaceCount opensBlockScalarLine) none

theorem any_stateBehind_iff {lines : List DocumentLine} {column : Nat} :
    (stateBehind lines).any (· < column) = true ↔
      IsSkipped (lines.map DocumentLine.text) column :=
  any_foldl_blockStep_iff _ _

theorem map_isUses_readings_iff (lines : List DocumentLine) :
    (readings none (lines.map DocumentLine.text)).map LineReading.isUses =
        lines.map DocumentLine.isUsesEntry ↔
      ∀ before line after, lines = before ++ line :: after →
        (readLine (stateBehind before) line.text).2.isUses =
          line.isUsesEntry := by
  constructor
  · rintro h before line after rfl
    rw [List.map_append, List.map_cons, readings_append_cons, List.map_append,
      List.map_append, List.map_cons] at h
    obtain ⟨-, hbehind⟩ := List.append_inj h (by
      rw [List.length_map, length_readings, List.length_map, List.length_map])
    exact (List.cons.inj hbehind).1
  · intro h
    have hfront : ∀ before after, lines = before ++ after →
        (readings none (before.map DocumentLine.text)).map
          LineReading.isUses = before.map DocumentLine.isUsesEntry := by
      intro before
      induction before using List.reverseRecOn with
      | nil =>
        intro after _
        rfl
      | append_singleton before line ih =>
        intro after hlines
        rw [List.append_assoc, List.singleton_append] at hlines
        rw [List.map_append, List.map_singleton, readings_append_cons,
          List.map_append, ih _ hlines, List.map_append, List.map_singleton,
          ← h before line after hlines]
        rfl
    exact hfront lines [] (List.append_nil lines).symm

/-- A line of the file is considered a `uses` entry exactly when the document
has the entry there. -/
def WorkflowDocument.FindsUses (document : WorkflowDocument) : Prop :=
  (readings none ((withoutUtf8Bom document.text).splitOn '\n')).map
      LineReading.isUses =
    document.lines.map DocumentLine.isUsesEntry

/-- No `uses` entry is hidden by the way it is written or by a line in front of
it, and no body of a block scalar shows one. -/
structure AreUsesVisible (lines : List DocumentLine) : Prop where
  readable : ∀ line, DocumentLine.node line ∈ lines → line.IsUsesEntry →
    line.IsReadable
  not_skipped : ∀ before line after,
    lines = before ++ DocumentLine.node line :: after → line.IsUsesEntry →
      ¬IsSkipped (before.map DocumentLine.text) line.indentation
  body_skipped : ∀ before text after,
    lines = before ++ DocumentLine.body text :: after → trimmed text ≠ [] →
      (lineReading text).isUses = true →
        IsSkipped (before.map DocumentLine.text) (leadingSpaceCount text)

/-- A line with a node is taken for an entry when it can be read and nothing in
front of it hides it. -/
theorem isUses_node_iff {line : NodeLine} (h : line.IsWritten)
    (before : List DocumentLine) :
    (readLine (stateBehind before) line.text).2.isUses = true ↔
      ¬IsSkipped (before.map DocumentLine.text) line.indentation ∧
        line.IsReadable := by
  obtain ⟨hcount, hne, -⟩ := NodeLine.lineReading_text h
  rw [isUses_readLine_iff, hcount, any_stateBehind_iff,
    NodeLine.isUses_lineReading_iff h]
  exact and_iff_right hne

theorem areUsesVisible_of_forall {lines : List DocumentLine}
    (hlines : ∀ line ∈ lines, line.IsWritten)
    (h : ∀ before line after, lines = before ++ line :: after →
      (readLine (stateBehind before) line.text).2.isUses =
        line.isUsesEntry) : AreUsesVisible lines := by
  have hnode : ∀ before line after,
      lines = before ++ DocumentLine.node line :: after → line.IsUsesEntry →
        ¬IsSkipped (before.map DocumentLine.text) line.indentation ∧
          line.IsReadable := by
    intro before line after hsplit huses
    have hline : line.IsWritten :=
      hlines (.node line) (by rw [hsplit]; simp)
    rw [← isUses_node_iff hline before]
    rw [show line.text = (DocumentLine.node line).text from rfl,
      h before _ after hsplit]
    exact decide_eq_true huses
  constructor
  · intro line hmem huses
    obtain ⟨before, after, hsplit⟩ := List.append_of_mem hmem
    exact (hnode before line after hsplit huses).2
  · intro before line after hsplit huses
    exact (hnode before line after hsplit huses).1
  · intro before text after hsplit hne huses
    by_contra hskipped
    rw [← any_stateBehind_iff] at hskipped
    have hreading := isUses_readLine_iff.mpr ⟨hne, hskipped, huses⟩
    have hbody := h before _ after hsplit
    rw [show (DocumentLine.body text).text = text from rfl, hreading] at hbody
    cases hbody

theorem forall_of_areUsesVisible {lines : List DocumentLine}
    (hlines : ∀ line ∈ lines, line.IsWritten) (h : AreUsesVisible lines)
    {before : List DocumentLine} {line : DocumentLine}
    {after : List DocumentLine} (hsplit : lines = before ++ line :: after) :
    (readLine (stateBehind before) line.text).2.isUses = line.isUsesEntry := by
  have hmem : line ∈ lines := by
    rw [hsplit]
    simp
  have hwritten := hlines line hmem
  rw [Bool.eq_iff_iff]
  cases line with
  | blank text =>
    rw [isUses_readLine_iff]
    exact iff_of_false (fun huses => huses.1 hwritten) (by
      simp [DocumentLine.isUsesEntry])
  | comment blanks text =>
    rw [isUses_readLine_iff, DocumentLine.text, lineReading_comment hwritten]
    simp [DocumentLine.isUsesEntry]
  | body text =>
    rw [isUses_readLine_iff, any_stateBehind_iff]
    refine iff_of_false ?_ (by simp [DocumentLine.isUsesEntry])
    rintro ⟨hne, hskipped, huses⟩
    exact hskipped (h.body_skipped before text after hsplit hne huses)
  | node line =>
    rw [DocumentLine.text, isUses_node_iff hwritten, DocumentLine.isUsesEntry,
      decide_eq_true_eq]
    constructor
    · intro huses
      exact huses.2.isUsesEntry
    · intro huses
      exact ⟨h.not_skipped before line after hsplit huses,
        h.readable line hmem huses⟩

/-! ## The file -/

theorem newline_notMem_scalar {scalar : Scalar} (h : scalar.IsWritten) :
    '\n' ∉ scalar.text := by
  cases scalar with
  | plain text => exact h.one_line.1
  | singleQuoted value =>
    intro hmem
    rw [Scalar.text, Scalar.doubled, List.mem_cons, List.mem_append,
      List.mem_flatMap] at hmem
    rcases hmem with hquote | ⟨c, hc, hmem⟩ | hquote
    · cases hquote
    · split_ifs at hmem
      · exact absurd hmem (by decide)
      · obtain rfl := List.mem_singleton.mp hmem
        exact h.1 hc
    · exact absurd hquote (by decide)
  | doubleQuoted pieces =>
    intro hmem
    rw [Scalar.text, List.mem_cons, List.mem_append, List.mem_flatMap] at hmem
    rcases hmem with hquote | ⟨piece, hpiece, hmem⟩ | hquote
    · cases hquote
    · have hwritten := h piece hpiece
      cases piece with
      | plain c =>
        obtain rfl := List.mem_singleton.mp hmem
        exact absurd (by simp) hwritten
      | simple code =>
        rw [QuotedPiece.text, List.mem_pair] at hmem
        rcases hmem with hslash | rfl
        · cases hslash
        · exact absurd hwritten (by simp [QuotedPiece.IsWritten,
            simpleEscapes, List.lookup_cons])
      | numeric code digits =>
        rw [QuotedPiece.text, List.mem_cons, List.mem_cons] at hmem
        rcases hmem with hslash | rfl | hdigit
        · cases hslash
        · exact absurd hwritten.1 (by simp [numericEscapes, List.lookup_cons])
        · exact absurd (hwritten.2 _ hdigit) (by decide)
    · exact absurd hquote (by decide)

theorem newline_notMem_separation {blanks : List Char}
    (h : IsSeparation blanks) : '\n' ∉ blanks := by
  intro hmem
  rcases h _ hmem with heq | heq
  · cases heq
  · cases heq

theorem newline_notMem_header {header : List Char} (h : IsBlockHeader header) :
    '\n' ∉ header := by
  obtain ⟨style, hstyle, chomping, hchomping, digits, hdigits, hheader⟩ := h
  have hparts : '\n' ≠ style ∧ '\n' ∉ chomping ∧ '\n' ∉ digits := by
    refine ⟨?_, ?_, ?_⟩
    · rintro rfl
      exact absurd hstyle (by decide)
    · have hall : ∀ text ∈ [[], ['+'], ['-']], '\n' ∉ text := by decide
      exact hall chomping hchomping
    · have hall : ∀ text ∈ [[], ['1'], ['2'], ['3'], ['4'], ['5'], ['6'], ['7'],
          ['8'], ['9']], '\n' ∉ text := by decide
      exact hall digits hdigits
  obtain ⟨hne, hchomp, hdigit⟩ := hparts
  rcases hheader with rfl | rfl
  · simp [hne, hchomp, hdigit]
  · simp [hne, hchomp, hdigit]

theorem newline_notMem_node {line : NodeLine} (h : line.IsWritten) :
    '\n' ∉ line.text := by
  have hcontent : '\n' ∉ line.content.text := by
    have hwritten := h.content
    cases hline : line.content with
    | dash => decide
    | scalar scalar =>
      rw [hline] at hwritten
      exact newline_notMem_scalar hwritten
    | blockScalar header =>
      rw [hline] at hwritten
      exact newline_notMem_header hwritten
    | entry key beforeColon value =>
      rw [hline] at hwritten
      obtain ⟨hkey, hseparation, hvalue⟩ := hwritten
      have hvalueText : '\n' ∉ value.text := by
        cases value with
        | nothing => exact List.not_mem_nil
        | scalar gap scalar =>
          rw [EntryValue.text, List.mem_append, not_or]
          exact ⟨newline_notMem_separation hvalue.2.1,
            newline_notMem_scalar hvalue.2.2⟩
        | blockScalar gap header =>
          rw [EntryValue.text, List.mem_append, not_or]
          exact ⟨newline_notMem_separation hvalue.2.1,
            newline_notMem_header hvalue.2.2⟩
      rw [Content.text, List.mem_append, List.mem_append, List.mem_cons,
        not_or, not_or, not_or]
      exact ⟨newline_notMem_scalar hkey,
        newline_notMem_separation hseparation, by decide, hvalueText⟩
  have htrailing : '\n' ∉ line.trailing.text := by
    rw [Trailing.text, List.mem_append, List.mem_append, not_or, not_or]
    refine ⟨newline_notMem_separation h.trailing.blanks, ?_, ?_⟩
    · cases hcomment : line.trailing.comment with
      | none => exact List.not_mem_nil
      | some comment =>
        rw [Option.map_some, Option.getD_some, List.mem_cons, not_or]
        exact ⟨by decide, (h.trailing.comment comment hcomment).2.1⟩
    · split_ifs
      · decide
      · exact List.not_mem_nil
  have hmarkers : '\n' ∉ line.markersText := by
    rw [NodeLine.markersText, List.mem_flatMap]
    rintro ⟨spaces, -, hmem⟩
    simp [List.mem_replicate] at hmem
  rw [NodeLine.text, NodeLine.behind, List.mem_append, List.mem_append,
    List.mem_append, not_or, not_or, not_or]
  exact ⟨by simp [List.mem_replicate], hmarkers, hcontent, htrailing⟩

theorem newline_notMem_of_mem {lines : List DocumentLine}
    (h : IsDocument lines) : ∀ line ∈ lines, '\n' ∉ line.text := by
  induction h with
  | nil => simp
  | blank _ hline _ ih => exact List.forall_mem_cons.mpr ⟨hline, ih⟩
  | comment hblanks htext _ ih =>
    refine List.forall_mem_cons.mpr ⟨?_, ih⟩
    rw [DocumentLine.text, List.mem_append, List.mem_cons, not_or, not_or]
    exact ⟨newline_notMem_separation hblanks, by decide, htext⟩
  | node hline _ _ ih =>
    exact List.forall_mem_cons.mpr ⟨newline_notMem_node hline, ih⟩
  | block hline _ hbody _ ih =>
    refine List.forall_mem_cons.mpr ⟨newline_notMem_node hline, ?_⟩
    intro line hmem
    rcases List.mem_append.mp hmem with hmem | hrest
    · obtain ⟨text, htext, rfl⟩ := List.mem_map.mp hmem
      exact (hbody text htext).1
    · exact ih line hrest

/-- The scan splits the file into the lines of the document. -/
theorem WorkflowDocument.splitOn_text (document : WorkflowDocument) :
    (withoutUtf8Bom document.text).splitOn '\n' =
      document.lines.map DocumentLine.text := by
  have htext : withoutUtf8Bom document.text =
      ['\n'].intercalate (document.lines.map DocumentLine.text) := by
    have hno := document.lines_no_bom
    rw [withoutUtf8Bom, WorkflowDocument.text]
    cases document.byteOrderMark with
    | false =>
      rw [if_neg]
      · rfl
      · rw [List.isPrefixOf_iff_prefix]
        exact hno
    | true =>
      rw [if_pos]
      · rfl
      · rw [List.isPrefixOf_iff_prefix]
        exact List.prefix_append _ _
  rw [htext, List.splitOn_intercalate '\n' _ (by
    rw [Ne, List.map_eq_nil_iff]
    exact document.lines_ne_nil)]
  intro line hline
  obtain ⟨line, hmem, rfl⟩ := List.mem_map.mp hline
  exact newline_notMem_of_mem document.isDocument line hmem

/-- The `uses` entries of a document are found exactly when they are visible. -/
theorem WorkflowDocument.findsUses_iff (document : WorkflowDocument) :
    document.FindsUses ↔ AreUsesVisible document.lines := by
  have hlines := isWritten_of_mem document.isDocument
  rw [WorkflowDocument.FindsUses, document.splitOn_text,
    map_isUses_readings_iff]
  constructor
  · exact areUsesVisible_of_forall hlines
  · intro h before line after hsplit
    exact forall_of_areUsesVisible hlines h hsplit

/-- The item `- if: >`. -/
def openingLine : NodeLine where
  markers := [0]
  content := .entry (.plain "if".toList) [] (.blockScalar [' '] ['>'])

/-- A `uses` entry of the same item. -/
def swallowedLine : NodeLine where
  indentation := 2
  content := .entry (.plain usesKey) []
    (.scalar [' '] (.plain "a/b@v1".toList))

def swallowedUses : List DocumentLine :=
  .node openingLine ::
    (["    x".toList].map DocumentLine.body ++ [.node swallowedLine])

theorem isDocument_swallowedUses : IsDocument swallowedUses := by
  have hspace : IsSeparation [' '] := by
    intro c hc
    exact Or.inl (List.mem_singleton.mp hc)
  have hnone : IsSeparation [] := by
    intro c hc
    cases hc
  have htrailing : Trailing.IsWritten {} := by
    refine ⟨hnone, ?_⟩
    intro comment hcomment
    cases hcomment
  have hopening : openingLine.IsWritten :=
    ⟨⟨isPlainScalar_of_forall (c := 'i') (by decide) (by decide), hnone,
      by decide, hspace, '>', by decide, [], by decide, [], by decide,
      Or.inl rfl⟩, htrailing⟩
  have hswallowed : swallowedLine.IsWritten :=
    ⟨⟨isPlainScalar_of_forall (c := 'u') (by decide) (by decide), hnone,
      by decide, hspace,
      isPlainScalar_of_forall (c := 'a') (by decide) (by decide)⟩, htrailing⟩
  refine IsDocument.block hopening (Or.inl ⟨_, _, _, _, rfl, rfl⟩) ?_
    (IsDocument.node hswallowed ?_ IsDocument.nil)
  · intro text htext
    obtain rfl := List.mem_singleton.mp htext
    exact ⟨by decide, Or.inr (by decide)⟩
  · rintro column (⟨_, _, _, _, hcontent, -⟩ | ⟨_, hcontent, -⟩)
    · cases hcontent
    · cases hcontent

/-- The entry is taken for the rest of the block scalar. -/
theorem WorkflowDocument.not_findsUses :
    ¬∀ document : WorkflowDocument, document.FindsUses := by
  intro h
  have hfinds := h
    { lines := swallowedUses
      lines_ne_nil := List.cons_ne_nil _ _
      isDocument := isDocument_swallowedUses
      lines_no_bom := by
        rw [← List.isPrefixOf_iff_prefix]
        decide }
  rw [WorkflowDocument.FindsUses, WorkflowDocument.splitOn_text,
    map_isUses_readings_iff] at hfinds
  have hvisible := areUsesVisible_of_forall
    (isWritten_of_mem isDocument_swallowedUses) hfinds
  refine hvisible.not_skipped
    [.node openingLine, .body "    x".toList] swallowedLine [] rfl
    ⟨_, _, _, rfl, rfl⟩ ⟨0, by decide, [], openingLine.text, ["    x".toList],
      rfl, by decide, by decide, by decide, ?_⟩
  intro line hline
  obtain rfl := List.mem_singleton.mp hline
  exact Or.inr (by decide)

end Bomwerk.Ci.GithubActions
