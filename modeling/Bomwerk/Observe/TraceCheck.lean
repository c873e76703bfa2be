import Bomwerk.Observe.TraceRead
import Mathlib.Algebra.Order.BigOperators.Group.List
import Mathlib.Data.List.Sort

/-!
# Checking and sorting a trace

`observe/trace_check.cpp`: the pass that drops what is no record from a finished
trace and rewrites the rest in the order of its bytes.  The reader of
`TraceRead` is the judge of a line for both, so they agree on the lines; what
is left to show is that rewriting neither loses nor changes a record.
-/

namespace Bomwerk.Observe

open Bomwerk.Core Bomwerk.Core.CanonicalJson Bomwerk.Core.JsonUtils
open Bomwerk.Support

structure TraceStats where
  totalLines : Nat := 0
  malformedLines : Nat := 0
  sortedLines : Nat := 0
  invocationsByTool : OrderedMap String Nat := ∅

/-- The variables of the loop of `validate_and_sort_trace`. -/
structure TraceChecking where
  stats : TraceStats := {}
  wellFormedLines : List (List UInt8) := []
  exceededLineBudget : Bool := false

section Checker

variable (parse : List UInt8 → Option Json)

/-- `is_trace_record`, which also names the tool. -/
def isTraceRecord (line : List UInt8) : Option String :=
  (parseTraceRecord parse line).map TraceRecord.tool

def checkLine (checking : TraceChecking) (line : List UInt8) : TraceChecking :=
  let line := dropTrailingCarriageReturn line
  if line = [] then checking
  else
    let stats := { checking.stats with
      totalLines := checking.stats.totalLines + 1 }
    match isTraceRecord parse line with
    | none =>
      { checking with
        stats := { stats with malformedLines := stats.malformedLines + 1 } }
    | some toolName =>
      let stats := { stats with
        invocationsByTool :=
          updateAt stats.invocationsByTool toolName fun count =>
            count.getD 0 + 1 }
      if checking.wellFormedLines.length < maxTraceLines then
        { checking with
          stats := stats
          wellFormedLines := checking.wellFormedLines ++ [line] }
      else { checking with stats := stats, exceededLineBudget := true }

/-- What `rewrite_trace` puts into the file. -/
def rewriteTrace (lines : List (List UInt8)) : List UInt8 :=
  joinTerminated '\n'.toUInt8 lines

/-- `validate_and_sort_trace`, with the file it leaves behind.  `none` is a file
that cannot be opened; `rewritable` says whether the rewrite goes through. -/
def validateAndSortTrace (rewritable : Bool) (tracePath : String)
    (file : Option (List UInt8)) : Result TraceStats × Option (List UInt8) :=
  match file with
  | none =>
    (Result.warn { value := {} } .observeTraceNotWritten
      ("no trace file was written at " ++ tracePath), none)
  | some bytes =>
    let checking := (bytes.splitOn '\n'.toUInt8).foldl (checkLine parse) {}
    let outcome : Result TraceStats := { value := checking.stats }
    let outcome := outcome.warnIf (0 < checking.stats.malformedLines)
      .observeTraceMalformedLines
      (toString checking.stats.malformedLines ++ " of " ++
        toString checking.stats.totalLines ++
        " trace lines were unreadable and have been dropped. Concurrent " ++
        "writes may have interleaved; the recorded build is incomplete")
    if checking.exceededLineBudget then
      (outcome.warn .observeTraceExceedsLimit
        ("trace exceeds " ++ toString maxTraceLines ++
          " lines; left in write order instead of canonical order"),
        some bytes)
    else
      let sorted := checking.wellFormedLines.insertionSort (· ≤ ·)
      if rewritable then
        ({ outcome with
            value := { outcome.value with sortedLines := sorted.length } },
          some (rewriteTrace sorted))
      else
        (outcome.warn .observeTraceRewriteFailed
          ("could not rewrite " ++ tracePath ++ " in canonical order; it is " ++
            "still valid but not byte-reproducible"), some bytes)

/-! ## The accepted lines -/

/-- A line, less its carriage return, that both loops keep. -/
def IsAccepted (line : List UInt8) : Prop :=
  line ≠ [] ∧ (parseTraceRecord parse line).isSome

instance : DecidablePred (IsAccepted parse) := fun line =>
  inferInstanceAs (Decidable (line ≠ [] ∧ _))

/-- The lines that are kept, in the order of the file. -/
def acceptedLines (lines : List (List UInt8)) : List (List UInt8) :=
  (lines.map dropTrailingCarriageReturn).filter (IsAccepted parse)

variable {parse}

theorem acceptedLines_cons (line : List UInt8) (lines : List (List UInt8)) :
    acceptedLines parse (line :: lines) =
      if IsAccepted parse (dropTrailingCarriageReturn line) then
        dropTrailingCarriageReturn line :: acceptedLines parse lines
      else acceptedLines parse lines := by
  simp [acceptedLines, List.filter_cons]

/-- Within the budget the checker collects the accepted lines. -/
theorem foldl_checkLine {lines : List (List UInt8)} {checking : TraceChecking}
    (hbudget : checking.wellFormedLines.length +
      (acceptedLines parse lines).length ≤ maxTraceLines) :
    (lines.foldl (checkLine parse) checking).wellFormedLines =
        checking.wellFormedLines ++ acceptedLines parse lines ∧
      (lines.foldl (checkLine parse) checking).exceededLineBudget =
        checking.exceededLineBudget := by
  induction lines generalizing checking with
  | nil => simp [acceptedLines]
  | cons line lines ih =>
    rw [List.foldl_cons, acceptedLines_cons]
    rw [acceptedLines_cons] at hbudget
    by_cases haccepted : IsAccepted parse (dropTrailingCarriageReturn line)
    · rw [if_pos haccepted] at hbudget ⊢
      obtain ⟨hne, hsome⟩ := haccepted
      obtain ⟨record, hrecord⟩ := Option.isSome_iff_exists.mp hsome
      rw [List.length_cons] at hbudget
      have hroom : checking.wellFormedLines.length < maxTraceLines := by omega
      have hstep : (checkLine parse checking line).wellFormedLines =
            checking.wellFormedLines ++ [dropTrailingCarriageReturn line] ∧
          (checkLine parse checking line).exceededLineBudget =
            checking.exceededLineBudget := by
        simp [checkLine, isTraceRecord, hne, hrecord, hroom]
      have hrest : (checkLine parse checking line).wellFormedLines.length +
          (acceptedLines parse lines).length ≤ maxTraceLines := by
        rw [hstep.1, List.length_append, List.length_singleton]
        omega
      obtain ⟨hlines, hexceeded⟩ := ih hrest
      rw [hlines, hexceeded, hstep.1, hstep.2, List.append_assoc]
      exact ⟨rfl, rfl⟩
    · rw [if_neg haccepted] at hbudget ⊢
      have hstep : (checkLine parse checking line).wellFormedLines =
            checking.wellFormedLines ∧
          (checkLine parse checking line).exceededLineBudget =
            checking.exceededLineBudget := by
        by_cases hne : dropTrailingCarriageReturn line = []
        · simp [checkLine, hne]
        · have hnone : parseTraceRecord parse
              (dropTrailingCarriageReturn line) = none := by
            simpa [IsAccepted, hne] using haccepted
          simp [checkLine, isTraceRecord, hne, hnone]
      rw [← hstep.1, ← hstep.2]
      exact ih (hstep.1 ▸ hbudget)

/-- Within the budget the reader collects the records of the accepted lines. -/
theorem records_readLines {lines : List (List UInt8)} {reading : TraceReading}
    (hbudget : reading.records.length + (acceptedLines parse lines).length ≤
      maxTraceLines) :
    (readLines parse reading lines).records = reading.records ++
        (acceptedLines parse lines).filterMap (parseTraceRecord parse) := by
  induction lines generalizing reading with
  | nil => simp [readLines, acceptedLines]
  | cons line lines ih =>
    rw [readLines, acceptedLines_cons]
    rw [acceptedLines_cons] at hbudget
    dsimp only
    by_cases hne : dropTrailingCarriageReturn line = []
    · have hrejected :
          ¬ IsAccepted parse (dropTrailingCarriageReturn line) :=
        fun haccepted => haccepted.1 hne
      rw [if_neg hrejected] at hbudget ⊢
      rw [if_pos hne, ih hbudget]
    rw [if_neg hne]
    cases hrecord : parseTraceRecord parse (dropTrailingCarriageReturn line) with
    | some record =>
      have haccepted : IsAccepted parse (dropTrailingCarriageReturn line) :=
        ⟨hne, by simp [hrecord]⟩
      rw [if_pos haccepted, List.length_cons] at hbudget
      rw [if_pos haccepted, if_neg (by omega), ih (by simp; omega),
        List.filterMap_cons_some hrecord, List.append_assoc]
      rfl
    | none =>
      have hrejected :
          ¬ IsAccepted parse (dropTrailingCarriageReturn line) := by
        simp [IsAccepted, hrecord]
      rw [if_neg hrejected] at hbudget ⊢
      -- behind the last record of a full budget, reading stops early
      by_cases hfull : maxTraceLines ≤ reading.records.length
      · have hrest : acceptedLines parse lines = [] :=
          List.eq_nil_of_length_eq_zero (by omega)
        rw [if_pos hfull, hrest]
        simp
      · rw [if_neg hfull]
        exact ih hbudget

/-- A trace of accepted lines is read without a count against it. -/
theorem readLines_clean {lines : List (List UInt8)} {reading : TraceReading}
    (hlines : ∀ line ∈ lines, dropTrailingCarriageReturn line = [] ∨
      IsAccepted parse (dropTrailingCarriageReturn line))
    (hbudget : reading.records.length + (acceptedLines parse lines).length ≤
      maxTraceLines) :
    (readLines parse reading lines).malformedLines = reading.malformedLines ∧
      (readLines parse reading lines).exceededLineBudget =
        reading.exceededLineBudget := by
  induction lines generalizing reading with
  | nil => exact ⟨rfl, rfl⟩
  | cons line lines ih =>
    rw [List.forall_mem_cons] at hlines
    rw [acceptedLines_cons] at hbudget
    rw [readLines]
    dsimp only
    rcases hlines.1 with hempty | haccepted
    · have hrejected :
          ¬ IsAccepted parse (dropTrailingCarriageReturn line) :=
        fun haccepted => haccepted.1 hempty
      rw [if_neg hrejected] at hbudget
      rw [if_pos hempty]
      exact ih hlines.2 hbudget
    · rw [if_pos haccepted, List.length_cons] at hbudget
      obtain ⟨record, hrecord⟩ := Option.isSome_iff_exists.mp haccepted.2
      rw [if_neg haccepted.1, if_neg (by omega)]
      simp only [hrecord]
      exact ih hlines.2 (by simp; omega)

/-! ## The rewritten file -/

/-- What the JSON library is trusted with: a carriage return behind a text is
white space, and nothing is no text. -/
structure ReadsLines (parse : List UInt8 → Option Json) : Prop where
  trailing_return : ∀ line, parse (line ++ ['\r'.toUInt8]) = parse line
  empty : parse [] = none

theorem exceedsFrom_concat_return {maximumDepth depth : Int}
    {insideString wasEscape : Bool} (line : List UInt8) :
    exceedsFrom maximumDepth depth insideString wasEscape
        (line ++ ['\r'.toUInt8]) =
      exceedsFrom maximumDepth depth insideString wasEscape line := by
  fun_induction exceedsFrom maximumDepth depth insideString wasEscape line with
  | case1 depth insideString wasEscape =>
    cases insideString <;> cases wasEscape <;> rfl
  | _ => simp_all [exceedsFrom]

/-- An accepted line stays accepted, as the same record, without its carriage
return. -/
theorem parseTraceRecord_dropTrailingCarriageReturn
    (hreads : ReadsLines parse) {line : List UInt8} {record : TraceRecord}
    (hrecord : parseTraceRecord parse line = some record) :
    parseTraceRecord parse (dropTrailingCarriageReturn line) = some record := by
  by_cases hreturn : line.getLast? = some '\r'.toUInt8
  · obtain ⟨front, rfl⟩ := List.getLast?_eq_some_iff.mp hreturn
    rw [dropTrailingCarriageReturn, if_pos hreturn, List.dropLast_concat]
    simp only [parseTraceRecord, JsonUtils.exceedsJsonNestingDepth,
      exceedsFrom_concat_return, hreads.trailing_return, List.length_append,
      List.length_singleton] at hrecord ⊢
    by_cases hlong : maxTraceLineBytes < front.length + 1
    · simp [hlong] at hrecord
    · rw [if_neg hlong] at hrecord
      rwa [if_neg (by omega)]
  · rwa [dropTrailingCarriageReturn, if_neg hreturn]

theorem IsAccepted.dropTrailingCarriageReturn (hreads : ReadsLines parse)
    {line : List UInt8} (haccepted : IsAccepted parse line) :
    IsAccepted parse (dropTrailingCarriageReturn line) := by
  obtain ⟨record, hrecord⟩ := Option.isSome_iff_exists.mp haccepted.2
  have hkept := parseTraceRecord_dropTrailingCarriageReturn hreads hrecord
  refine ⟨?_, by simp [hkept]⟩
  intro hempty
  rw [hempty] at hkept
  simp [parseTraceRecord, hreads.empty] at hkept

theorem isAccepted_of_mem_acceptedLines {lines : List (List UInt8)}
    {line : List UInt8} (hline : line ∈ acceptedLines parse lines) :
    IsAccepted parse line := by
  simpa using (List.mem_filter.mp hline).2

theorem newline_not_mem_of_mem_acceptedLines {file line : List UInt8}
    (hline : line ∈ acceptedLines parse (file.splitOn '\n'.toUInt8)) :
    '\n'.toUInt8 ∉ line := by
  obtain ⟨piece, hpiece, rfl⟩ :=
    List.mem_map.mp (List.mem_filter.mp hline).1
  have hnewline := not_mem_of_mem_splitOn piece hpiece
  rw [dropTrailingCarriageReturn]
  split_ifs
  · exact fun hmem => hnewline (List.dropLast_subset _ hmem)
  · exact hnewline

/-- Read again, accepted lines are accepted, less a carriage return. -/
theorem acceptedLines_append_nil (hreads : ReadsLines parse)
    {lines : List (List UInt8)}
    (hlines : ∀ line ∈ lines, IsAccepted parse line) :
    acceptedLines parse (lines ++ [[]]) =
      lines.map dropTrailingCarriageReturn := by
  have hnil : ¬ IsAccepted parse (dropTrailingCarriageReturn []) :=
    fun haccepted => haccepted.1 rfl
  have hkept : ∀ line ∈ lines.map dropTrailingCarriageReturn,
      IsAccepted parse line := by
    intro line hline
    obtain ⟨written, hwritten, rfl⟩ := List.mem_map.mp hline
    exact (hlines written hwritten).dropTrailingCarriageReturn hreads
  rw [acceptedLines, List.map_append, List.filter_append,
    List.filter_eq_self.mpr (by simpa using hkept)]
  simp [hnil]

/-- The file a run within the cap leaves behind. -/
def checkedTrace (parse : List UInt8 → Option Json) (file : List UInt8) :
    List UInt8 :=
  rewriteTrace ((acceptedLines parse (file.splitOn '\n'.toUInt8)).insertionSort
    (· ≤ ·))

theorem validateAndSortTrace_file {tracePath : String} {file : List UInt8}
    (hcap : (acceptedLines parse (file.splitOn '\n'.toUInt8)).length ≤
      maxTraceLines) :
    (validateAndSortTrace parse true tracePath (some file)).2 =
      some (checkedTrace parse file) := by
  have hbudget : ({} : TraceChecking).wellFormedLines.length +
      (acceptedLines parse (file.splitOn '\n'.toUInt8)).length ≤
        maxTraceLines := by
    simpa using hcap
  obtain ⟨hlines, hexceeded⟩ := foldl_checkLine hbudget
  simp [validateAndSortTrace, hlines, hexceeded, checkedTrace]

section Rewritten

variable {file : List UInt8}

theorem splitOn_checkedTrace :
    (checkedTrace parse file).splitOn '\n'.toUInt8 =
      (acceptedLines parse (file.splitOn '\n'.toUInt8)).insertionSort (· ≤ ·) ++
        [[]] := by
  apply splitOn_joinTerminated
  intro line hline
  rw [List.mem_insertionSort] at hline
  exact newline_not_mem_of_mem_acceptedLines hline

theorem acceptedLines_checkedTrace (hreads : ReadsLines parse) :
    acceptedLines parse ((checkedTrace parse file).splitOn '\n'.toUInt8) =
      ((acceptedLines parse (file.splitOn '\n'.toUInt8)).insertionSort
        (· ≤ ·)).map dropTrailingCarriageReturn := by
  rw [splitOn_checkedTrace]
  apply acceptedLines_append_nil hreads
  intro line hline
  rw [List.mem_insertionSort] at hline
  exact isAccepted_of_mem_acceptedLines hline

theorem length_acceptedLines_checkedTrace (file : List UInt8)
    (hreads : ReadsLines parse) :
    (acceptedLines parse
        ((checkedTrace parse file).splitOn '\n'.toUInt8)).length =
      (acceptedLines parse (file.splitOn '\n'.toUInt8)).length := by
  rw [acceptedLines_checkedTrace hreads, List.length_map,
    List.length_insertionSort]

/-- The records of the rewritten file are those of the file, in another
order. -/
theorem filterMap_acceptedLines_checkedTrace (hreads : ReadsLines parse) :
    ((acceptedLines parse
        ((checkedTrace parse file).splitOn '\n'.toUInt8)).filterMap
          (parseTraceRecord parse)).Perm
      ((acceptedLines parse (file.splitOn '\n'.toUInt8)).filterMap
        (parseTraceRecord parse)) := by
  have hsame : ∀ line ∈ (acceptedLines parse
      (file.splitOn '\n'.toUInt8)).insertionSort (· ≤ ·),
      (parseTraceRecord parse ∘ dropTrailingCarriageReturn) line =
        parseTraceRecord parse line := by
    intro line hline
    rw [List.mem_insertionSort] at hline
    obtain ⟨record, hrecord⟩ := Option.isSome_iff_exists.mp
      (isAccepted_of_mem_acceptedLines hline).2
    rw [hrecord, Function.comp_apply,
      parseTraceRecord_dropTrailingCarriageReturn hreads hrecord]
  rw [acceptedLines_checkedTrace hreads, List.filterMap_map,
    List.filterMap_congr hsame]
  exact (List.perm_insertionSort _ _).filterMap _

/-- The rewritten file is read without a warning. -/
theorem readTrace_checkedTrace (hreads : ReadsLines parse)
    (hcap : (acceptedLines parse (file.splitOn '\n'.toUInt8)).length ≤
      maxTraceLines) (tracePath : String) :
    readTrace parse tracePath (some (checkedTrace parse file)) =
      { value := (acceptedLines parse
          ((checkedTrace parse file).splitOn '\n'.toUInt8)).filterMap
            (parseTraceRecord parse) } := by
  have hbudget : ({} : TraceReading).records.length + (acceptedLines parse
      ((checkedTrace parse file).splitOn '\n'.toUInt8)).length ≤
        maxTraceLines := by
    simpa [length_acceptedLines_checkedTrace file hreads] using hcap
  have hlines : ∀ line ∈ (checkedTrace parse file).splitOn '\n'.toUInt8,
      dropTrailingCarriageReturn line = [] ∨
        IsAccepted parse (dropTrailingCarriageReturn line) := by
    rw [splitOn_checkedTrace]
    intro line hline
    rcases List.mem_append.mp hline with hline | hline
    · rw [List.mem_insertionSort] at hline
      exact .inr ((isAccepted_of_mem_acceptedLines
        hline).dropTrailingCarriageReturn hreads)
    · rw [List.mem_singleton.mp hline]
      exact .inl rfl
  obtain ⟨hmalformed, hexceeded⟩ := readLines_clean hlines hbudget
  have hrecords := records_readLines hbudget
  simp only [readTrace, hmalformed, hexceeded, hrecords]
  rfl

/-! ## The second run -/

theorem length_dropTrailingCarriageReturn_le (line : List UInt8) :
    (dropTrailingCarriageReturn line).length ≤ line.length := by
  rw [dropTrailingCarriageReturn]
  split_ifs
  · simp
  · rfl

theorem dropTrailingCarriageReturn_eq_self_iff {line : List UInt8} :
    dropTrailingCarriageReturn line = line ↔
      line.getLast? ≠ some '\r'.toUInt8 := by
  rw [dropTrailingCarriageReturn]
  constructor
  · intro hsame hreturn
    obtain ⟨front, rfl⟩ := List.getLast?_eq_some_iff.mp hreturn
    rw [if_pos hreturn, List.dropLast_concat] at hsame
    simpa using congrArg List.length hsame
  · exact fun hreturn => if_neg hreturn

/-- A line that loses its carriage return makes the whole shorter, so lines
that stay as they are together stay so one by one. -/
theorem map_dropTrailingCarriageReturn_perm_iff {lines : List (List UInt8)} :
    (lines.map dropTrailingCarriageReturn).Perm lines ↔
      ∀ line ∈ lines, line.getLast? ≠ some '\r'.toUInt8 := by
  constructor
  · intro hperm line hline hreturn
    have hsum := (hperm.map List.length).sum_eq
    rw [List.map_map] at hsum
    have hless : (lines.map
        (List.length ∘ dropTrailingCarriageReturn)).sum <
          (lines.map List.length).sum := by
      refine List.sum_lt_sum _ _
        (fun line _ => length_dropTrailingCarriageReturn_le line)
        ⟨line, hline, ?_⟩
      obtain ⟨front, rfl⟩ := List.getLast?_eq_some_iff.mp hreturn
      simp [dropTrailingCarriageReturn]
    omega
  · intro hlines
    have hsame : lines.map dropTrailingCarriageReturn = lines.map id :=
      List.map_congr_left fun line hline =>
        dropTrailingCarriageReturn_eq_self_iff.mpr (hlines line hline)
    rw [hsame, List.map_id]

/-- Checking the rewritten file again changes it exactly when a line of it
still ends in a carriage return. -/
theorem checkedTrace_checkedTrace_eq_iff (hreads : ReadsLines parse) :
    checkedTrace parse (checkedTrace parse file) = checkedTrace parse file ↔
      ∀ line ∈ acceptedLines parse (file.splitOn '\n'.toUInt8),
        line.getLast? ≠ some '\r'.toUInt8 := by
  generalize hsorted : (acceptedLines parse
    (file.splitOn '\n'.toUInt8)).insertionSort (· ≤ ·) = sorted
  have hmem : ∀ line, line ∈ acceptedLines parse
      (file.splitOn '\n'.toUInt8) ↔ line ∈ sorted := by
    intro line
    rw [← hsorted, List.mem_insertionSort]
  have hnewline : ∀ line ∈ sorted, '\n'.toUInt8 ∉ line :=
    fun line hline =>
      newline_not_mem_of_mem_acceptedLines ((hmem line).mpr hline)
  have hagain : ∀ line ∈ (sorted.map dropTrailingCarriageReturn).insertionSort
      (· ≤ ·), '\n'.toUInt8 ∉ line := by
    intro line hline
    rw [List.mem_insertionSort, ← hsorted,
      ← acceptedLines_checkedTrace hreads] at hline
    exact newline_not_mem_of_mem_acceptedLines hline
  have hrun : checkedTrace parse (checkedTrace parse file) =
      rewriteTrace ((sorted.map dropTrailingCarriageReturn).insertionSort
        (· ≤ ·)) := by
    rw [← hsorted, ← acceptedLines_checkedTrace hreads, checkedTrace]
  have hfile : checkedTrace parse file = rewriteTrace sorted := by
    rw [← hsorted, checkedTrace]
  simp only [hmem]
  rw [hrun, hfile, ← map_dropTrailingCarriageReturn_perm_iff]
  constructor
  · intro hsame
    have hlines := joinTerminated_injective hagain hnewline hsame
    have hperm := List.perm_insertionSort (· ≤ ·)
      (sorted.map dropTrailingCarriageReturn)
    rw [hlines] at hperm
    exact hperm.symm
  · intro hperm
    have hordered : sorted.Pairwise (· ≤ ·) :=
      hsorted ▸ List.pairwise_insertionSort _ _
    have hagain := List.pairwise_insertionSort (· ≤ ·)
      (sorted.map dropTrailingCarriageReturn)
    rw [((List.perm_insertionSort _ _).trans hperm).eq_of_pairwise' hagain
      hordered]

end Rewritten

/-- Checking loses no record: the file it leaves behind is read without a
warning and holds the records of the file it was given, each as often.  Checked
again it stays as it is, unless a line came with a second carriage return. -/
theorem validateAndSortTrace_preserves (hreads : ReadsLines parse)
    (tracePath : String) (file : List UInt8)
    (hcap : (acceptedLines parse (file.splitOn '\n'.toUInt8)).length ≤
      maxTraceLines) :
    ∃ rewritten,
      (validateAndSortTrace parse true tracePath (some file)).2 =
          some rewritten ∧
        (∃ records,
          readTrace parse tracePath (some rewritten) = { value := records } ∧
            records.Perm (readTrace parse tracePath (some file)).value) ∧
        ((validateAndSortTrace parse true tracePath (some rewritten)).2 =
            some rewritten ↔
          ∀ line ∈ acceptedLines parse (file.splitOn '\n'.toUInt8),
            line.getLast? ≠ some '\r'.toUInt8) := by
  have hagain := length_acceptedLines_checkedTrace file hreads
  have hbudget : ({} : TraceReading).records.length +
      (acceptedLines parse (file.splitOn '\n'.toUInt8)).length ≤
        maxTraceLines := by
    simpa using hcap
  have hbefore := records_readLines hbudget
  refine ⟨_, validateAndSortTrace_file hcap,
    ⟨_, readTrace_checkedTrace hreads hcap tracePath, ?_⟩, ?_⟩
  · have hvalue : (readTrace parse tracePath (some file)).value =
        (acceptedLines parse (file.splitOn '\n'.toUInt8)).filterMap
          (parseTraceRecord parse) := by
      simpa [readTrace] using hbefore
    rw [hvalue]
    exact filterMap_acceptedLines_checkedTrace hreads
  · rw [validateAndSortTrace_file (hagain.le.trans hcap), Option.some_inj]
    exact checkedTrace_checkedTrace_eq_iff hreads

end Checker

/-- A JSON library that reads canonical texts, with carriage returns behind
them. -/
def parseTrimmed (bytes : List UInt8) : Option Json :=
  parseCanonical (bytes.rdropWhile (· = '\r'.toUInt8))

theorem readsLines_parseTrimmed : ReadsLines parseTrimmed where
  trailing_return line := by
    rw [parseTrimmed, List.rdropWhile_concat_pos _ _ _ (by decide), parseTrimmed]
  empty := by decide +kernel

/-- The line of the sample is accepted, with a carriage return behind it or
without. -/
theorem parseTrimmed_sampleInvocation :
    parseTraceRecord parseTrimmed (traceLine sampleInvocation).dropLast =
        some sampleInvocation ∧
      parseTraceRecord parseTrimmed
          ((traceLine sampleInvocation).dropLast ++ ['\r'.toUInt8]) =
        some sampleInvocation := by
  have hcanonical : parseTraceRecord parseCanonical
      (traceLine sampleInvocation).dropLast = some sampleInvocation := by
    rw [parseTraceRecord_dropLast_traceLine
      (fun _ _ => parseCanonical_utf8Encode), if_pos (by decide +kernel)]
  have hshort : ¬ maxTraceLineBytes <
      ((traceLine sampleInvocation).dropLast ++ ['\r'.toUInt8]).length := by
    decide +kernel
  obtain ⟨front, hfront⟩ : ∃ front,
      (traceLine sampleInvocation).dropLast = front ++ ['}'.toUInt8] := by
    refine ⟨(traceLine sampleInvocation).dropLast.dropLast, ?_⟩
    decide +kernel
  have hparse : parseTrimmed (traceLine sampleInvocation).dropLast =
      parseCanonical (traceLine sampleInvocation).dropLast := by
    rw [parseTrimmed, hfront, List.rdropWhile_concat_neg _ _ _ (by decide)]
  have hplain : parseTraceRecord parseTrimmed
      (traceLine sampleInvocation).dropLast = some sampleInvocation := by
    rw [← hcanonical, parseTraceRecord, hparse, parseTraceRecord]
  refine ⟨hplain, ?_⟩
  rw [parseTraceRecord, if_neg hshort, JsonUtils.exceedsJsonNestingDepth,
    exceedsFrom_concat_return, readsLines_parseTrimmed.trailing_return]
  rw [parseTraceRecord, if_neg (by
    rw [List.length_append] at hshort
    omega)] at hplain
  exact hplain

/-- The sample, copied twice through a tool that puts a carriage return in
front of a newline. -/
def twiceReturnedTrace : List UInt8 :=
  (traceLine sampleInvocation).dropLast ++
    ['\r'.toUInt8, '\r'.toUInt8, '\n'.toUInt8]

theorem acceptedLines_twiceReturnedTrace :
    acceptedLines parseTrimmed (twiceReturnedTrace.splitOn '\n'.toUInt8) =
      [(traceLine sampleInvocation).dropLast ++ ['\r'.toUInt8]] := by
  have hsplit : twiceReturnedTrace.splitOn '\n'.toUInt8 =
      [(traceLine sampleInvocation).dropLast ++
        ['\r'.toUInt8, '\r'.toUInt8], []] := by
    decide +kernel
  have hdrop : dropTrailingCarriageReturn ((traceLine
      sampleInvocation).dropLast ++ ['\r'.toUInt8, '\r'.toUInt8]) =
      (traceLine sampleInvocation).dropLast ++ ['\r'.toUInt8] := by
    decide +kernel
  have haccepted : IsAccepted parseTrimmed
      ((traceLine sampleInvocation).dropLast ++ ['\r'.toUInt8]) :=
    ⟨by simp, by rw [parseTrimmed_sampleInvocation.2]; rfl⟩
  rw [hsplit, acceptedLines_cons, hdrop, if_pos haccepted]
  rfl

theorem validateAndSortTrace_twiceReturnedTrace :
    ReadsLines parseTrimmed ∧
      (acceptedLines parseTrimmed
        (twiceReturnedTrace.splitOn '\n'.toUInt8)).length ≤ maxTraceLines ∧
      ∃ rewritten,
        (validateAndSortTrace parseTrimmed true "trace.jsonl"
            (some twiceReturnedTrace)).2 = some rewritten ∧
          (validateAndSortTrace parseTrimmed true "trace.jsonl"
            (some rewritten)).2 ≠ some rewritten := by
  have hcap : (acceptedLines parseTrimmed
      (twiceReturnedTrace.splitOn '\n'.toUInt8)).length ≤ maxTraceLines := by
    rw [acceptedLines_twiceReturnedTrace]
    decide
  have hagain := length_acceptedLines_checkedTrace twiceReturnedTrace
    readsLines_parseTrimmed
  refine ⟨readsLines_parseTrimmed, hcap, _, validateAndSortTrace_file hcap, ?_⟩
  rw [validateAndSortTrace_file (hagain.le.trans hcap), Ne, Option.some_inj,
    checkedTrace_checkedTrace_eq_iff readsLines_parseTrimmed,
    acceptedLines_twiceReturnedTrace]
  intro hlines
  exact hlines _ List.mem_cons_self (by simp)

theorem validateAndSortTrace_preserves_sampleInvocation :
    ∃ rewritten,
      (validateAndSortTrace parseTrimmed true "trace.jsonl"
          (some twiceReturnedTrace)).2 = some rewritten ∧
        (∃ records,
          readTrace parseTrimmed "trace.jsonl" (some rewritten) =
              { value := records } ∧
            records.Perm (readTrace parseTrimmed "trace.jsonl"
              (some twiceReturnedTrace)).value) ∧
        ((validateAndSortTrace parseTrimmed true "trace.jsonl"
            (some rewritten)).2 = some rewritten ↔
          ∀ line ∈ acceptedLines parseTrimmed
              (twiceReturnedTrace.splitOn '\n'.toUInt8),
            line.getLast? ≠ some '\r'.toUInt8) :=
  validateAndSortTrace_preserves readsLines_parseTrimmed "trace.jsonl"
    twiceReturnedTrace (by rw [acceptedLines_twiceReturnedTrace]; decide)

end Bomwerk.Observe
