import Bomwerk.Core.TextPieces

/-!
# Sequence items

`core/yaml_subset.cpp` with the opt-in for sequence items, as the manifests
that are built from lists are read.
-/

namespace Bomwerk.Core.YamlSubset

/-- `Node`, with the fields that only the opt-in sets. -/
structure SequenceNode extends Node where
  startsSequenceItem : Bool
  isFlowSequence : Bool
  deriving DecidableEq, Repr

/-- What one line yields; a line outside the subset is counted and may still
start an item. -/
structure SequenceReading where
  unsupported : Bool
  node? : Option SequenceNode
  deriving DecidableEq, Repr

namespace SequenceReading

def nothing : SequenceReading := { unsupported := false, node? := none }

def node (node : SequenceNode) : SequenceReading :=
  { unsupported := false, node? := some node }

end SequenceReading

def itemNode (indentation : Nat) (opensBlock : Bool) (value : List Char) :
    SequenceNode where
  indentation := indentation
  key := []
  value := value
  opensBlock := opensBlock
  isFlowMapping := false
  startsSequenceItem := true
  isFlowSequence := false

/-- `skip_line` in `read_line`. -/
def skipLine (startsSequenceItem : Bool) (keyIndentation : Nat) :
    SequenceReading where
  unsupported := true
  node? :=
    if startsSequenceItem then some (itemNode keyIndentation false [])
    else none

def isFlowSequence (value : List Char) : Bool :=
  2 ≤ value.length ∧ value.head? = some '[' ∧ value.getLast? = some ']'

/-- `is_unsupported_value` with the opt-in. -/
def isUnsupportedItemValue (value : List Char) : Bool :=
  if value.head? = some '[' then !isFlowSequence value
  else value.head?.any isAnchorAliasTag

/-- The node of a line whose key and value are known. -/
def sequenceNodeOf (startsSequenceItem : Bool) (indentation : Nat)
    (key value : List Char) : SequenceNode where
  indentation := indentation
  key := key
  value :=
    if isFlowMapping value ∨ isFlowSequence value then
      trimmed value.tail.dropLast
    else unquoted value
  opensBlock := value = []
  isFlowMapping := isFlowMapping value
  startsSequenceItem := startsSequenceItem
  isFlowSequence := isFlowSequence value

/-- The end of `read_line`, with the indentation of the block scalar that the
line opens. -/
def readKeyed (startsSequenceItem : Bool) (keyIndentation : Nat)
    (content : List Char) : Option Nat × SequenceReading :=
  let skipped := skipLine startsSequenceItem keyIndentation
  if isUnsupportedStart content then (none, skipped)
  else
    match splitKey? content with
    | none => (none, skipped)
    | some (keyText, valueText) =>
      let key := unquoted (trimmed keyText)
      let value := trimmed valueText
      if key = [] then (none, skipped)
      else if opensBlockScalar value then (some keyIndentation, skipped)
      else if isUnsupportedItemValue value then (none, skipped)
      else
        (none, .node
          (sequenceNodeOf startsSequenceItem keyIndentation key value))

/-- The part of `read_line` behind the marker of an item. -/
def readMarked (indentation keyIndentation : Nat) (content : List Char) :
    Option Nat × SequenceReading :=
  if content = [] then (none, .node (itemNode keyIndentation true []))
  else if content.head? = some '\x7b' then (none, skipLine true keyIndentation)
  else if (splitKey? content).isNone then
    if opensBlockScalar content then
      (some indentation, skipLine true keyIndentation)
    else if isUnsupportedStart content then
      (none, skipLine true keyIndentation)
    else (none, .node (itemNode keyIndentation false (unquoted content)))
  else readKeyed true keyIndentation content

/-- `read_line` behind the indentation. -/
def readSequenceContent (indentation : Nat) (content : List Char) :
    Option Nat × SequenceReading :=
  if content = [] then (none, .nothing)
  else if isSequenceMarker content then
    readMarked indentation
      (indentation + 1 + leadingSpaceCount content.tail)
      (trimmed content.tail)
  else readKeyed false indentation content

/-- `Reader::read_line`; the state is `block_scalar_indentation_`. -/
def readSequenceLine (blockScalarIndentation : Option Nat)
    (rawLine : List Char) : Option Nat × SequenceReading :=
  if trimmed rawLine = [] then (blockScalarIndentation, .nothing)
  else
    let indentation := leadingSpaceCount rawLine
    if blockScalarIndentation.any (· < indentation) then
      (blockScalarIndentation, skipLine false indentation)
    else
      let behind := rawLine.drop indentation
      if behind.head? = some '\t' then (none, skipLine false indentation)
      else
        readSequenceContent indentation (trimmed (withoutComment behind))

def readSequenceLines : Option Nat → List (List Char) → List SequenceReading
  | _, [] => []
  | blockScalarIndentation, line :: lines =>
    let (blockScalarIndentation, reading) :=
      readSequenceLine blockScalarIndentation line
    reading :: readSequenceLines blockScalarIndentation lines

/-- What a `Reader` with sequence items yields on a text. -/
def sequenceReadings (text : List Char) : List SequenceReading :=
  readSequenceLines none (text.splitOn '\n')

/-! ## Columns -/

/-- The node of a reading is at the column, and so is the block scalar that is
left open. -/
def IsAt (column : Nat) (result : Option Nat × SequenceReading) : Prop :=
  (∀ node ∈ result.2.node?, node.indentation = column) ∧
    ∀ opened ∈ result.1, opened = column

section Columns

variable {starts : Bool} {column : Nat} {content : List Char}

theorem isAt_skipLine : IsAt column (none, skipLine starts column) := by
  refine ⟨?_, by simp⟩
  intro node hnode
  cases starts with
  | false => cases hnode
  | true =>
    obtain rfl := Option.some.inj hnode
    rfl

theorem isAt_node {node : SequenceNode} (hnode : node.indentation = column) :
    IsAt column (none, .node node) := by
  refine ⟨?_, by simp⟩
  intro other hother
  obtain rfl := Option.some.inj hother
  exact hnode

theorem isAt_readKeyed : IsAt column (readKeyed starts column content) := by
  rw [readKeyed]
  dsimp only
  split_ifs
  · exact isAt_skipLine
  cases splitKey? content with
  | none => exact isAt_skipLine
  | some texts =>
    dsimp only
    split_ifs
    · exact isAt_skipLine
    · refine ⟨isAt_skipLine.1, ?_⟩
      intro opened hopened
      exact (Option.some.inj hopened).symm
    · exact isAt_skipLine
    · exact isAt_node rfl

/-- Behind the marker of an item the node is at the column of the key. -/
theorem readMarked_columns {indentation : Nat} (hle : indentation ≤ column) :
    (∀ node ∈ (readMarked indentation column content).2.node?,
        node.indentation = column) ∧
      ∀ opened ∈ (readMarked indentation column content).1,
        indentation ≤ opened := by
  have hweaken : ∀ {result : Option Nat × SequenceReading}, IsAt column result →
        (∀ node ∈ result.2.node?, node.indentation = column) ∧
          ∀ opened ∈ result.1, indentation ≤ opened := by
    intro result hresult
    exact ⟨hresult.1, fun opened h => (hresult.2 opened h).symm ▸ hle⟩
  rw [readMarked]
  split_ifs
  · exact hweaken (isAt_node rfl)
  · exact hweaken isAt_skipLine
  · refine ⟨(@isAt_skipLine true column).1, ?_⟩
    intro opened hopened
    exact (Option.some.inj hopened).le
  · exact hweaken isAt_skipLine
  · exact hweaken (isAt_node rfl)
  · exact hweaken isAt_readKeyed

/-- A node is not to the left of its line, and to the right of a marker. -/
theorem readSequenceContent_columns (column : Nat) (content : List Char) :
    (∀ node ∈ (readSequenceContent column content).2.node?,
        column ≤ node.indentation ∧
          (isSequenceMarker content = true → column < node.indentation)) ∧
      ∀ opened ∈ (readSequenceContent column content).1, column ≤ opened := by
  rw [readSequenceContent]
  split_ifs with hempty hmarker
  · exact ⟨fun node hnode => (Option.not_mem_none _ hnode).elim, by simp⟩
  · obtain ⟨hnodes, hopened⟩ := @readMarked_columns
      (column + 1 + leadingSpaceCount content.tail) (trimmed content.tail)
      column (by omega)
    refine ⟨fun node hnode => ?_, hopened⟩
    have hcolumn := hnodes node hnode
    omega
  · obtain ⟨hnodes, hopened⟩ := @isAt_readKeyed false column content
    refine ⟨fun node hnode => ?_, fun opened h => (hopened opened h).ge⟩
    exact ⟨(hnodes node hnode).ge, fun h => absurd h hmarker⟩

end Columns

/-- A line at the column ends any block scalar. -/
def Resumes (column : Nat) (state : Option Nat) : Prop :=
  ∀ opened ∈ state, column ≤ opened

theorem resumes_none (column : Nat) : Resumes column none :=
  fun opened hopened => by cases hopened

theorem Resumes.mono {left right : Nat} {state : Option Nat}
    (h : Resumes right state) (hle : left ≤ right) : Resumes left state :=
  fun opened hopened => hle.trans (h opened hopened)

theorem readSequenceLine_of_resumes {state : Option Nat} {line : List Char}
    (hstate : Resumes (leadingSpaceCount line) state)
    (hline : trimmed line ≠ []) :
    readSequenceLine state line =
      if (line.drop (leadingSpaceCount line)).head? = some '\t' then
        (none, skipLine false (leadingSpaceCount line))
      else
        readSequenceContent (leadingSpaceCount line)
          (trimmed (withoutComment (line.drop (leadingSpaceCount line)))) := by
  have hany : state.any (· < leadingSpaceCount line) ≠ true := by
    intro hany
    obtain ⟨opened, hopened, hlt⟩ := (Option.any_eq_true _ _).mp hany
    exact (hstate opened hopened).not_gt (of_decide_eq_true hlt)
  rw [readSequenceLine, if_neg hline]
  dsimp only
  rw [if_neg hany]

/-- What any line leaves behind. -/
theorem readSequenceLine_columns (state : Option Nat) (line : List Char) :
    (∀ node ∈ (readSequenceLine state line).2.node?,
        leadingSpaceCount line ≤ node.indentation) ∧
      ∀ opened ∈ (readSequenceLine state line).1,
        opened ∈ state ∨ leadingSpaceCount line ≤ opened := by
  by_cases hline : trimmed line = []
  · rw [readSequenceLine, if_pos hline]
    exact ⟨fun node hnode => (Option.not_mem_none _ hnode).elim,
      fun opened h => .inl h⟩
  by_cases hinside : state.any (· < leadingSpaceCount line) = true
  · rw [readSequenceLine, if_neg hline]
    dsimp only
    rw [if_pos hinside]
    exact ⟨fun node hnode => (Option.not_mem_none _ hnode).elim,
      fun opened h => .inl h⟩
  have hstate : Resumes (leadingSpaceCount line) state := by
    intro opened hopened
    by_contra hlt
    exact hinside ((Option.any_eq_true _ _).mpr
      ⟨opened, hopened, decide_eq_true (not_le.mp hlt)⟩)
  rw [readSequenceLine_of_resumes hstate hline]
  split_ifs
  · exact ⟨fun node hnode => (Option.not_mem_none _ hnode).elim, by simp⟩
  · obtain ⟨hnodes, hopened⟩ := readSequenceContent_columns
      (leadingSpaceCount line)
      (trimmed (withoutComment (line.drop (leadingSpaceCount line))))
    exact ⟨fun node hnode => (hnodes node hnode).1,
      fun opened h => .inr (hopened opened h)⟩

def stateBehind : Option Nat → List (List Char) → Option Nat :=
  List.foldl fun state line => (readSequenceLine state line).1

theorem readSequenceLines_append (state : Option Nat)
    (front back : List (List Char)) :
    readSequenceLines state (front ++ back) = readSequenceLines state front ++
        readSequenceLines (stateBehind state front) back := by
  induction front generalizing state with
  | nil => rfl
  | cons line front ih =>
    rw [List.cons_append, readSequenceLines, readSequenceLines]
    dsimp only
    rw [ih, List.cons_append]
    rfl

def lineNodes (state : Option Nat) (lines : List (List Char)) :
    List SequenceNode :=
  (readSequenceLines state lines).filterMap SequenceReading.node?

theorem lineNodes_cons (state : Option Nat) (line : List Char)
    (lines : List (List Char)) :
    lineNodes state (line :: lines) =
      (readSequenceLine state line).2.node?.toList ++
        lineNodes (readSequenceLine state line).1 lines := by
  rw [lineNodes, readSequenceLines]
  dsimp only
  rw [List.filterMap_cons]
  cases (readSequenceLine state line).2.node? with
  | none => rfl
  | some node => rfl

theorem lineNodes_append (state : Option Nat) (front back : List (List Char)) :
    lineNodes state (front ++ back) =
      lineNodes state front ++ lineNodes (stateBehind state front) back := by
  rw [lineNodes, readSequenceLines_append, List.filterMap_append]
  rfl

theorem stateBehind_append (state : Option Nat)
    (front back : List (List Char)) :
    stateBehind state (front ++ back) =
      stateBehind (stateBehind state front) back :=
  List.foldl_append

end Bomwerk.Core.YamlSubset
