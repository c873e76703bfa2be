import Bomwerk.Core.JsonUtils
import Bomwerk.Core.Warning
import Bomwerk.Observe.Trace
import Bomwerk.Observe.TraceLine

/-!
# Reading a trace back

`observe/trace_read.cpp` over the bytes of a trace file.  The JSON library is a
parameter: what is relied on is that it parses canonical JSON to its value.
-/

namespace Bomwerk.Observe

open Bomwerk.Core Bomwerk.Core.CanonicalJson Bomwerk.Core.JsonUtils
open Bomwerk.Support

def maxTraceLines : Nat := 1000000

def maxTraceLineBytes : Nat := 1024 * 1024

def maxTraceRecordJsonDepth : Int := 4

def dropTrailingCarriageReturn (line : List UInt8) : List UInt8 :=
  if line.getLast? = some '\r'.toUInt8 then line.dropLast else line

/-- A member that is an integer, as `get<long>()` reads it. -/
def findInteger? (document : Json) (key : String) : Option Int64 :=
  match document.find? key with
  | some (.integer value) => some (Int64.ofInt value)
  | _ => none

/-- The field checks of `parse_trace_record`. -/
def recordOfJson (parsed : Json) : Option TraceRecord :=
  (parsed.findString? "tool").bind fun tool =>
  (parsed.findArray? "argv").bind fun argv =>
  (parsed.findString? "cwd").bind fun workingDirectory =>
  (findInteger? parsed "pid").bind fun processId =>
  (argv.mapM Json.asString?).map fun arguments =>
    { tool := tool, arguments := arguments,
      workingDirectory := workingDirectory, processId := processId }

section Reader

variable (parse : List UInt8 → Option Json)

def parseTraceRecord (line : List UInt8) : Option TraceRecord :=
  if maxTraceLineBytes < line.length then none
  else if JsonUtils.exceedsJsonNestingDepth line maxTraceRecordJsonDepth then
    none
  else
    match parse line with
    | some parsed => if parsed.isObject then recordOfJson parsed else none
    | none => none

/-- The variables of the loop of `read_trace`. -/
structure TraceReading where
  records : List TraceRecord := []
  totalLines : Nat := 0
  malformedLines : Nat := 0
  exceededLineBudget : Bool := false

/-- The loop of `read_trace`. -/
def readLines : TraceReading → List (List UInt8) → TraceReading
  | reading, [] => reading
  | reading, line :: lines =>
    let line := dropTrailingCarriageReturn line
    if line = [] then readLines reading lines
    else
      let reading := { reading with totalLines := reading.totalLines + 1 }
      if maxTraceLines ≤ reading.records.length then
        { reading with exceededLineBudget := true }
      else
        match parseTraceRecord parse line with
        | none =>
          readLines
            { reading with malformedLines := reading.malformedLines + 1 }
            lines
        | some record =>
          readLines { reading with records := reading.records ++ [record] }
            lines

/-- `read_trace`; `none` is a file that cannot be opened.  What stands behind
the last newline is a line as well: when it is empty, it is skipped. -/
def readTrace (tracePath : String) (file : Option (List UInt8)) :
    Result (List TraceRecord) :=
  match file with
  | none =>
    Result.warn { value := [] } .observeTraceNotWritten
      ("no trace file to read at " ++ tracePath ++
        "; nothing was observed, so no component can be shown to be used")
  | some bytes =>
    let reading := readLines parse {} (bytes.splitOn '\n'.toUInt8)
    let outcome : Result (List TraceRecord) := { value := reading.records }
    let outcome := outcome.warnIf (0 < reading.malformedLines)
      .observeTraceMalformedLines
      (toString reading.malformedLines ++ " of " ++
        toString reading.totalLines ++
        " trace lines were unreadable and have been dropped; the recorded " ++
        "build is incomplete, so a component may be reported unused that " ++
        "was in fact compiled")
    outcome.warnIf reading.exceededLineBudget .observeTraceExceedsLimit
      ("trace exceeds " ++ toString maxTraceLines ++
        " lines; the rest was not read, so a component may be reported " ++
        "unused that was in fact compiled")

end Reader

/-- The line a shim appends for the invocation. -/
def traceLine (record : TraceRecord) : List UInt8 :=
  buildTraceLine (utf8Encode record.tool.toList)
    (record.arguments.map fun argument => utf8Encode argument.toList)
    (utf8Encode record.workingDirectory.toList) record.processId

theorem readsAs_utf8Encode {text value : String}
    (hreads : ReadsAs (utf8Encode text.toList) value) : value = text :=
  String.toList_inj.mp (hreads.repaired.unique (Repaired.utf8Encode _))

theorem values_of_readsAs {texts values : List String}
    (hreads : List.Forall₂ ReadsAs
      (texts.map fun text => utf8Encode text.toList) values) :
    values = texts := by
  induction texts generalizing values with
  | nil =>
    cases hreads
    rfl
  | cons text texts ih =>
    cases hreads with
    | cons hhead htail => rw [readsAs_utf8Encode hhead, ih htail]

theorem traceLine_derives (record : TraceRecord) :
    ∃ text, traceLine record = utf8Encode text ++ ['\n'.toUInt8] ∧
      Derives (.value (invocationObject record.tool record.arguments
        record.workingDirectory record.processId)) text := by
  obtain ⟨text, tool, values, directory, hline, htext, htool, hvalues,
    hdirectory⟩ := buildTraceLine_derives (utf8Encode record.tool.toList)
      (record.arguments.map fun argument => utf8Encode argument.toList)
      (utf8Encode record.workingDirectory.toList) record.processId
  obtain rfl := readsAs_utf8Encode htool
  obtain rfl := readsAs_utf8Encode hdirectory
  obtain rfl := values_of_readsAs hvalues
  exact ⟨text, hline, htext⟩

theorem recordOfJson_invocationObject (record : TraceRecord) :
    recordOfJson (invocationObject record.tool record.arguments
      record.workingDirectory record.processId) = some record := by
  simp [recordOfJson, invocationObject, Json.findString?, Json.findArray?,
    findInteger?, Json.find?, List.lookup_cons, Json.asString?,
    Json.mapM_asString?_string]

theorem depth_invocationObject_le (tool : String) (arguments : List String)
    (workingDirectory : String) (processId : Int64) :
    (invocationObject tool arguments workingDirectory processId).depth ≤ 2 := by
  have hstrings : Json.itemsDepth (arguments.map Json.string) ≤ 0 := by
    rw [Json.itemsDepth_le_iff]
    intro item hitem
    obtain ⟨argument, -, rfl⟩ := List.mem_map.mp hitem
    simp [Json.depth]
  simp only [invocationObject, Json.depth, Json.membersDepth]
  omega

/-! ## The round trip -/

section RoundTrip

variable {parse : List UInt8 → Option Json}

/-- A line is accepted exactly when it is not over-long, and then it is the
record it was written for. -/
theorem parseTraceRecord_dropLast_traceLine
    (hparse : ∀ text value, Derives (.value value) text →
      parse (utf8Encode text) = some value) (record : TraceRecord) :
    parseTraceRecord parse (traceLine record).dropLast =
      if (traceLine record).length ≤ maxTraceLineBytes + 1 then some record
      else none := by
  obtain ⟨text, hline, htext⟩ := traceLine_derives record
  have hshallow : JsonUtils.exceedsJsonNestingDepth (utf8Encode text)
      maxTraceRecordJsonDepth = false := by
    have hdepth := depth_invocationObject_le record.tool record.arguments
      record.workingDirectory record.processId
    rw [exceedsJsonNestingDepth_utf8Encode htext (by decide),
      decide_eq_false_iff_not, maxTraceRecordJsonDepth]
    omega
  rw [hline, List.dropLast_concat, List.length_append, List.length_singleton]
  simp only [parseTraceRecord, hshallow, hparse text _ htext,
    Bool.false_eq_true, if_false]
  by_cases hlong : maxTraceLineBytes < (utf8Encode text).length
  · rw [if_pos hlong, if_neg (by omega)]
  · have hobject : (invocationObject record.tool record.arguments
        record.workingDirectory record.processId).isObject = true := rfl
    rw [if_neg hlong, if_pos hobject, if_pos (by omega)]
    exact recordOfJson_invocationObject record

theorem splitOn_flatMap_traceLine (records : List TraceRecord) :
    (records.flatMap traceLine).splitOn '\n'.toUInt8 =
      records.map (fun record => (traceLine record).dropLast) ++ [[]] := by
  induction records with
  | nil => rfl
  | cons record records ih =>
    obtain ⟨text, hline, htext⟩ := traceLine_derives record
    have hnewline : '\n'.toUInt8 ∉ utf8Encode text :=
      toUInt8_not_mem_utf8Encode (by decide)
        (newline_not_mem_of_derives htext)
    rw [List.flatMap_cons, List.map_cons, hline, List.append_assoc,
      List.singleton_append,
      List.splitOn_append_cons_self_of_not_mem hnewline, ih,
      List.dropLast_concat, List.cons_append]

theorem dropTrailingCarriageReturn_dropLast_traceLine (record : TraceRecord) :
    dropTrailingCarriageReturn (traceLine record).dropLast =
        (traceLine record).dropLast ∧
      (traceLine record).dropLast ≠ [] := by
  obtain ⟨front, hfront⟩ : ∃ front,
      traceLine record = front ++ ['}'.toUInt8, '\n'.toUInt8] := ⟨_, rfl⟩
  rw [hfront, List.append_cons, List.dropLast_concat,
    dropTrailingCarriageReturn, List.getLast?_concat, if_neg (by decide)]
  exact ⟨rfl, by simp⟩

/-- As long as the budget lasts, the loop collects the records. -/
theorem readLines_traceLines
    (hparse : ∀ text value, Derives (.value value) text →
      parse (utf8Encode text) = some value) {records : List TraceRecord}
    (hshort : ∀ record ∈ records,
      (traceLine record).length ≤ maxTraceLineBytes + 1)
    {reading : TraceReading}
    (hbudget : reading.records.length + records.length ≤ maxTraceLines) :
    readLines parse reading
        (records.map (fun record => (traceLine record).dropLast) ++ [[]]) =
      { reading with
        records := reading.records ++ records
        totalLines := reading.totalLines + records.length } := by
  induction records generalizing reading with
  | nil => simp [readLines, dropTrailingCarriageReturn]
  | cons record records ih =>
    obtain ⟨hkept, hne⟩ :=
      dropTrailingCarriageReturn_dropLast_traceLine record
    obtain ⟨hlength, hshort⟩ := List.forall_mem_cons.mp hshort
    rw [List.length_cons] at hbudget
    have haccepted := parseTraceRecord_dropLast_traceLine hparse record
    rw [if_pos hlength] at haccepted
    rw [List.map_cons, List.cons_append, readLines]
    simp only [hkept, haccepted]
    rw [if_neg hne, if_neg (by omega), ih hshort (by simp; omega)]
    simp [Nat.add_comm, Nat.add_left_comm]

theorem readTrace_flatMap_traceLine
    (hparse : ∀ text value, Derives (.value value) text →
      parse (utf8Encode text) = some value) (tracePath : String)
    {records : List TraceRecord} (hbudget : records.length ≤ maxTraceLines)
    (hshort : ∀ record ∈ records,
      (traceLine record).length ≤ maxTraceLineBytes + 1) :
    readTrace parse tracePath (some (records.flatMap traceLine)) =
      { value := records } := by
  have hempty : ({} : TraceReading).records.length + records.length ≤
      maxTraceLines := by
    simpa using hbudget
  simp only [readTrace, splitOn_flatMap_traceLine,
    readLines_traceLines hparse hshort hempty]
  rfl

/-- The reader is the inverse of the writer: a line that is not over-long is
the record it was written for, and a file of such lines is the list of them,
without a warning. -/
theorem readTrace_roundTrip
    (hparse : ∀ text value, Derives (.value value) text →
      parse (utf8Encode text) = some value) :
    (∀ record, parseTraceRecord parse (traceLine record).dropLast =
      if (traceLine record).length ≤ maxTraceLineBytes + 1 then some record
      else none) ∧
    ∀ tracePath records, records.length ≤ maxTraceLines →
      (∀ record ∈ records,
        (traceLine record).length ≤ maxTraceLineBytes + 1) →
      readTrace parse tracePath (some (records.flatMap traceLine)) =
        { value := records } :=
  ⟨parseTraceRecord_dropLast_traceLine hparse,
    fun tracePath _ hbudget hshort =>
      readTrace_flatMap_traceLine hparse tracePath hbudget hshort⟩

end RoundTrip

/-- A JSON library that reads canonical texts only. -/
def parseCanonical (bytes : List UInt8) : Option Json :=
  bytes.toByteArray.utf8Decode?.bind fun chars =>
    CanonicalJson.read chars.toList

theorem parseCanonical_utf8Encode {text : List Char} {value : Json}
    (hderives : Derives (.value value) text) :
    parseCanonical (utf8Encode text) = some value := by
  rw [parseCanonical, utf8Encode_toByteArray, List.utf8Decode?_utf8Encode]
  simpa using read_eq_some hderives

/-- An invocation whose arguments need every kind of escape. -/
def sampleInvocation : TraceRecord :=
  { tool := "cc"
    arguments := ["cc", "-DNAME=\"a\\b\x7b[\"", "caf\u00e9\t\n\x01.c", ""]
    workingDirectory := "/work/\u2713 😀"
    processId := -7 }

theorem readTrace_roundTrip_sampleInvocation :
    parseTraceRecord parseCanonical (traceLine sampleInvocation).dropLast =
        some sampleInvocation ∧
      readTrace parseCanonical "trace.jsonl"
        (some ([sampleInvocation, sampleInvocation].flatMap traceLine)) =
        { value := [sampleInvocation, sampleInvocation] } := by
  have hshort : (traceLine sampleInvocation).length ≤
      maxTraceLineBytes + 1 := by decide +kernel
  obtain ⟨hrecord, hfile⟩ :=
    readTrace_roundTrip fun _ _ => parseCanonical_utf8Encode
  refine ⟨?_, hfile _ _ (by decide +kernel) ?_⟩
  · rw [hrecord, if_pos hshort]
  · simpa using hshort

/-- An invocation and the wall clock it ran at, which `build_trace_line` is not
given. -/
structure TimedInvocation where
  record : TraceRecord
  timestamp : Nat

/-- No reader tells when an invocation ran. -/
theorem not_readsTimestamp :
    ¬ ∃ read : List UInt8 → Option TimedInvocation,
      ∀ invocation : TimedInvocation,
        (traceLine invocation.record).length ≤ maxTraceLineBytes →
          read (traceLine invocation.record) = some invocation := by
  rintro ⟨read, hread⟩
  have hshort : (traceLine sampleInvocation).length ≤ maxTraceLineBytes := by
    decide +kernel
  have hfirst := hread ⟨sampleInvocation, 0⟩ hshort
  have hsecond := hread ⟨sampleInvocation, 1⟩ hshort
  rw [hfirst] at hsecond
  simp at hsecond

end Bomwerk.Observe
