import Bomwerk.Embedded.WestDocument

/-!
# The frames of a manifest

Below the key of a section the stack of `read_manifest` is that of the section
with the open blocks on top, of which only the outermost decides what is read.
-/

namespace Bomwerk.Embedded.West

open Bomwerk.Core Bomwerk.Core.YamlSubset Bomwerk.Support

def nodeIndentation (node : SequenceNode) : Nat := node.indentation

def nodeOpens (node : SequenceNode) : Bool :=
  node.opensBlock ∧ node.key ≠ []

/-- The nodes that no block of a section hides. -/
def keptNodes : Option Nat → List SequenceNode → List SequenceNode :=
  outsideBlocks (fun _ => false) nodeIndentation nodeOpens

/-- The outermost open block behind some nodes. -/
def openBlock : Option Nat → List SequenceNode → Option Nat :=
  List.foldl (blockStep (fun _ => false) nodeIndentation nodeOpens)

/-- Frames above those of a section, of which the outermost is at the given
column. -/
inductive IsAbove (base : List Frame) : Option Nat → List Frame → Prop
  | base : IsAbove base none base
  | opened (frame : Frame) :
      IsAbove base (some frame.indentation) (frame :: base)
  | deeper {column : Nat} {stack : List Frame} (frame : Frame) :
      IsAbove base (some column) stack → column < frame.indentation →
        IsAbove base (some column) (frame :: stack)

section Enclosing

variable {base stack : List Frame} {column indentation : Nat}

theorem length_lt_of_isAbove (habove : IsAbove base (some column) stack) :
    base.length < stack.length := by
  generalize hopened : some column = opened at habove
  induction habove with
  | base => cases hopened
  | opened frame => simp
  | deeper frame _ _ ih =>
    have hlt := ih hopened
    rw [List.length_cons]
    omega

theorem enclosing_cons (frame : Frame) (stack : List Frame) :
    enclosing indentation (frame :: stack) =
      if indentation ≤ frame.indentation then enclosing indentation stack
      else frame :: stack := by
  rw [enclosing, List.dropWhile_cons]
  by_cases hle : indentation ≤ frame.indentation <;> simp [hle, enclosing]

/-- A block stays open around what is indented deeper. -/
theorem isAbove_enclosing (hdeeper : column < indentation)
    (habove : IsAbove base (some column) stack) :
    IsAbove base (some column) (enclosing indentation stack) := by
  generalize hopened : some column = opened at habove ⊢
  induction habove with
  | base => cases hopened
  | opened frame =>
    obtain rfl := Option.some.inj hopened
    rw [enclosing_cons, if_neg (by omega)]
    exact .opened frame
  | deeper frame hstack hframe ih =>
    rw [enclosing_cons]
    split_ifs
    · exact ih hopened
    · exact .deeper frame hstack hframe

/-- What is not deeper than the outermost block closes them all. -/
theorem enclosing_eq_base {opened : Option Nat}
    (hbase : ∀ frame ∈ base.head?, frame.indentation < indentation)
    (hclosed : ∀ column ∈ opened, indentation ≤ column)
    (habove : IsAbove base opened stack) :
    enclosing indentation stack = base := by
  have hstop : enclosing indentation base = base := by
    cases base with
    | nil => rfl
    | cons frame base =>
      have hlt := hbase frame rfl
      rw [enclosing_cons, if_neg (by omega)]
  induction habove with
  | base => exact hstop
  | opened frame =>
    rw [enclosing_cons, if_pos (hclosed _ rfl), hstop]
  | @deeper column stack frame _ hframe ih =>
    have hle := hclosed column rfl
    rw [enclosing_cons, if_pos (by omega), ih hclosed]

end Enclosing

theorem readNode_of_deep {stack : List Frame} (hstack : 2 < stack.length)
    (node : SequenceNode) (manifest : Manifest) :
    readNode node stack manifest = manifest := by
  match stack with
  | [] => simp at hstack
  | [_] => simp at hstack
  | [_, _] => simp at hstack
  | _ :: _ :: _ :: _ => rfl

def sectionFrames (column manifestColumn : Nat) (key : List Char) :
    List Frame :=
  [⟨column, key⟩, ⟨manifestColumn, manifestKey⟩]

theorem nodeOpens_iff {node : SequenceNode} :
    nodeOpens node = true ↔ node.opensBlock = true ∧ node.key ≠ [] := by
  rw [nodeOpens, decide_eq_true_eq]

section Run

variable {column manifestColumn : Nat} {key : List Char}
  {stack : List Frame} {node : SequenceNode}

theorem head_sectionFrames (hnode : column < node.indentation) :
    ∀ frame ∈ (sectionFrames column manifestColumn key).head?,
      frame.indentation < node.indentation := by
  intro frame hframe
  obtain rfl : (⟨column, key⟩ : Frame) = frame := by
    simpa [sectionFrames] using hframe
  exact hnode

/-- A node inside a block is read past. -/
theorem manifestStep_of_deeper {opened : Nat}
    (habove : IsAbove (sectionFrames column manifestColumn key) (some opened)
      stack)
    (hnode : opened < node.indentation) (manifest : Manifest) :
    IsAbove (sectionFrames column manifestColumn key) (some opened)
        (manifestStep (stack, manifest) node).1 ∧
      (manifestStep (stack, manifest) node).2 = manifest := by
  have hstack := isAbove_enclosing hnode habove
  constructor
  · rw [manifestStep]
    dsimp only
    split_ifs
    · exact .deeper _ hstack hnode
    · exact hstack
  · have hlength := length_lt_of_isAbove hstack
    exact readNode_of_deep (by simpa [sectionFrames] using hlength) _ _

/-- Any other node below the key of a section is read. -/
theorem manifestStep_of_closed {opened : Option Nat}
    (habove : IsAbove (sectionFrames column manifestColumn key) opened stack)
    (hnode : column < node.indentation)
    (hclosed : ∀ column ∈ opened, node.indentation ≤ column)
    (manifest : Manifest) :
    IsAbove (sectionFrames column manifestColumn key)
        (if nodeOpens node then some node.indentation else none)
        (manifestStep (stack, manifest) node).1 ∧
      (manifestStep (stack, manifest) node).2 =
        readSectionNode key node manifest := by
  have hbase : ∀ frame ∈ (sectionFrames column manifestColumn key).head?,
      frame.indentation < node.indentation := head_sectionFrames hnode
  have hstack := enclosing_eq_base hbase hclosed habove
  rw [manifestStep]
  dsimp only
  rw [hstack]
  constructor
  · by_cases hpush : nodeOpens node = true
    · rw [if_pos hpush, if_pos (nodeOpens_iff.mp hpush)]
      exact .opened ⟨node.indentation, node.key⟩
    · rw [if_neg hpush, if_neg fun h => hpush (nodeOpens_iff.mpr h)]
      exact .base
  · simp [readNode, sectionFrames]

/-- The nodes below the key of a section. -/
theorem foldl_manifestStep {opened : Option Nat}
    (habove : IsAbove (sectionFrames column manifestColumn key) opened stack)
    {nodes : List SequenceNode} (hnodes : ∀ node ∈ nodes, column < node.indentation)
    (manifest : Manifest) :
    IsAbove (sectionFrames column manifestColumn key) (openBlock opened nodes)
        (nodes.foldl manifestStep (stack, manifest)).1 ∧
      (nodes.foldl manifestStep (stack, manifest)).2 =
        (keptNodes opened nodes).foldl
          (fun manifest node => readSectionNode key node manifest)
          manifest := by
  induction nodes generalizing opened stack manifest with
  | nil => exact ⟨habove, rfl⟩
  | cons node nodes ih =>
    rw [List.forall_mem_cons] at hnodes
    obtain ⟨hnode, hnodes⟩ := hnodes
    rw [List.foldl_cons, openBlock, List.foldl_cons, keptNodes,
      outsideBlocks, List.foldl_append]
    by_cases hdeeper : opened.any (· < nodeIndentation node) = true
    · obtain ⟨column, rfl, hlt⟩ := (Option.any_eq_true _ _).mp hdeeper
      have hlt : column < node.indentation := of_decide_eq_true hlt
      obtain ⟨hstack, hmanifest⟩ := manifestStep_of_deeper habove hlt manifest
      have hstep : blockStep (fun _ => false) nodeIndentation nodeOpens
          (some column) node = some column := by
        rw [blockStep, if_neg (by simp), if_pos hdeeper]
      rw [hstep, if_pos hdeeper, List.foldl_nil]
      obtain ⟨habove, hrun⟩ :=
        ih hstack hnodes (manifestStep (stack, manifest) node).2
      exact ⟨habove, hrun.trans (by rw [hmanifest]; rfl)⟩
    · have hclosed : ∀ column ∈ opened, node.indentation ≤ column := by
        rintro column rfl
        exact Nat.not_lt.mp fun hlt => hdeeper (decide_eq_true hlt)
      obtain ⟨hstack, hmanifest⟩ :=
        manifestStep_of_closed habove hnode hclosed manifest
      have hstep : blockStep (fun _ => false) nodeIndentation nodeOpens
          opened node =
            if nodeOpens node then some node.indentation else none := by
        rw [blockStep, if_neg (by simp), if_neg hdeeper]
        rfl
      rw [hstep, if_neg hdeeper, List.foldl_cons, List.foldl_nil, ← hmanifest]
      exact ih hstack hnodes _

end Run

end Bomwerk.Embedded.West

/-!
## The nodes of a document

The reader yields a node for each field, with the nodes of the block below it,
which are all deeper, and one for a marker that stands by itself.
-/

namespace Bomwerk.Embedded.West

open Bomwerk.Core Bomwerk.Core.YamlSubset

/-! ## Nodes of fields -/

namespace Field

variable (starts : Bool) (column : Nat)

def nodes (field : Field) : List SequenceNode :=
  match field.value with
  | .scalar _ value =>
    [sequenceNodeOf starts column field.key value.text]
  | .block nested =>
    sequenceNodeOf starts column field.key [] :: lineNodes none nested
  | .blockScalar _ _ _ => (skipLine starts column).node?.toList

end Field

theorem leadingSpaceCount_solid (column : Nat) {content : List Char}
    (hsolid : IsSolid content) :
    leadingSpaceCount (List.replicate column ' ' ++ content) = column ∧
      (List.replicate column ' ' ++ content).drop column = content ∧
        content.head? ≠ some '\t' ∧
          trimmed (List.replicate column ' ' ++ content) ≠ [] := by
  obtain ⟨first, hfirst, hblank⟩ := hsolid.head
  obtain ⟨rest, rfl⟩ := List.head?_eq_some_iff.mp hfirst
  have hspace : first ≠ ' ' := by
    rintro rfl
    exact absurd hblank (by decide)
  have htab : first ≠ '\t' := by
    rintro rfl
    exact absurd hblank (by decide)
  refine ⟨leadingSpaceCount_replicate_append column hspace rest, ?_,
    by simpa using htab, ?_⟩
  · rw [List.drop_append_of_le_length (by simp)]
    simp
  · rw [trimmed_replicate_append hsolid]
    simp

theorem readSequenceLine_solid {column : Nat} {content : List Char}
    (hsolid : IsSolid content) (hcomment : withoutComment content = content)
    {state : Option Nat} (hstate : Resumes column state) :
    readSequenceLine state (List.replicate column ' ' ++ content) =
      readSequenceContent column content := by
  obtain ⟨hcount, hdrop, htab, hline⟩ := leadingSpaceCount_solid column hsolid
  rw [readSequenceLine_of_resumes (by rwa [hcount]) hline, hcount, hdrop,
    if_neg htab, hcomment, hsolid.trimmed_eq]

section Lines

variable {field : Field} {column marker : Nat} {state : Option Nat}

theorem head_text (h : field.IsWritten column) :
    ∃ c rest, field.text = c :: rest ∧ c ≠ '-' ∧ c ≠ '\x7b' := by
  obtain ⟨c, hc, -⟩ := (Field.isSolid_key h).head
  obtain ⟨hmapping, hbrace⟩ := h.key.start c hc
  obtain ⟨rest, hrest⟩ := List.head?_eq_some_iff.mp hc
  simp only [opensMapping, decide_eq_true_eq] at hmapping
  exact ⟨c, rest ++ ':' :: field.value.text, by rw [Field.text, hrest]; rfl,
    hmapping.1, hbrace⟩

theorem readSequenceLine_field (h : field.IsWritten column)
    (hstate : Resumes column state) :
    readSequenceLine state (List.replicate column ' ' ++ field.text) =
      readKeyed false column field.text := by
  have hsolid := Field.isSolid_text h
  have hcomment := @Field.withoutComment_text _ _ h [] (by simp)
  obtain ⟨c, rest, hrest, hdash, -⟩ := head_text h
  have hmarker : isSequenceMarker field.text = false := by
    rw [hrest]
    simp [isSequenceMarker, List.isPrefixOf, hdash,
      beq_eq_false_iff_ne.mpr (Ne.symm hdash)]
  rw [readSequenceLine_solid hsolid hcomment hstate, readSequenceContent,
    if_neg hsolid.ne_nil, hmarker, if_neg (by simp)]

theorem readSequenceLine_marked {gap : Nat}
    (h : field.IsWritten (marker + 2 + gap)) (hstate : Resumes marker state) :
    readSequenceLine state
        (List.replicate marker ' ' ++
          '-' :: (List.replicate (gap + 1) ' ' ++ field.text)) =
      readKeyed true (marker + 2 + gap) field.text := by
  have hsolid := Field.isSolid_text h
  have hlead : ∀ c ∈ '-' :: List.replicate (gap + 1) ' ',
      c = '-' ∨ c = ' ' := by
    intro c hc
    rcases List.mem_cons.mp hc with rfl | hc
    · exact .inl rfl
    · exact .inr (List.eq_of_mem_replicate hc)
  have hcomment := Field.withoutComment_text h hlead
  rw [List.cons_append] at hcomment
  have hcontent : IsSolid
      ('-' :: (List.replicate (gap + 1) ' ' ++ field.text)) := by
    have happend := @IsSolid.append ('-' :: List.replicate (gap + 1) ' ') _
      hsolid ⟨'-', rfl, rfl⟩
    rwa [List.cons_append] at happend
  have hmarker : isSequenceMarker
      ('-' :: (List.replicate (gap + 1) ' ' ++ field.text)) = true := by
    simp [isSequenceMarker, List.isPrefixOf, List.replicate_succ]
  obtain ⟨hcount, -, -, -⟩ := leadingSpaceCount_solid (gap + 1) hsolid
  obtain ⟨c, rest, hrest, -, hbrace⟩ := head_text h
  have hbrace : field.text.head? ≠ some '\x7b' := by
    rw [hrest]
    simpa using hbrace
  have hkeyed : (splitKey? field.text).isNone = false := by
    rw [Field.splitKey?_text h]
    rfl
  rw [readSequenceLine_solid hcontent hcomment hstate, readSequenceContent,
    if_neg hcontent.ne_nil, if_pos hmarker, List.tail_cons, hcount,
    trimmed_replicate_append hsolid, readMarked, if_neg hsolid.ne_nil,
    if_neg hbrace, hkeyed, if_neg (by simp),
    show marker + 1 + (gap + 1) = marker + 2 + gap by omega]

theorem readSequenceLine_lone (hstate : Resumes marker state) :
    readSequenceLine state (List.replicate marker ' ' ++ ['-']) =
      (none, .node (itemNode (marker + 1) true [])) := by
  have hsolid : IsSolid ['-'] := ⟨⟨'-', rfl, rfl⟩, ⟨'-', rfl, rfl⟩⟩
  rw [readSequenceLine_solid hsolid (by decide) hstate]
  rfl

theorem isSequenceMarker_of_dash {rest : List Char}
    (hrest : rest = [] ∨ rest.head? = some ' ') :
    isSequenceMarker (trimmed (withoutComment ('-' :: rest))) = true := by
  rcases hrest with rfl | hrest
  · decide
  · obtain ⟨more, rfl⟩ := List.head?_eq_some_iff.mp hrest
    obtain ⟨kept, hkept⟩ : ∃ kept,
        withoutComment ('-' :: ' ' :: more) = '-' :: ' ' :: kept := by
      have hlead : ∀ c ∈ ['-', ' '], isQuote c = false ∧
          ∀ previous rest, startsComment previous c rest = false := by
        intro c hc
        have hc : c = '-' ∨ c = ' ' := by simpa using hc
        apply isQuote_and_startsComment
        rcases hc with rfl | rfl <;> simp
      have hscan := splitOutsideQuotes_append_of_forall hlead none more _ rfl
      exact ⟨(splitOutsideQuotes startsComment none (some ' ') more).1,
        congrArg Prod.fst hscan⟩
    have hdash : IsSolid ['-'] := ⟨⟨'-', rfl, rfl⟩, ⟨'-', rfl, rfl⟩⟩
    rw [hkept, show '-' :: ' ' :: kept = ['-'] ++ ' ' :: kept from rfl,
      trimmed_append hdash]
    rcases hdrop : (' ' :: kept).rdropWhile isAsciiBlank with _ | ⟨c, tail⟩
    · rfl
    · have hprefix := List.rdropWhile_prefix isAsciiBlank (' ' :: kept)
      rw [hdrop] at hprefix
      obtain ⟨suffix, hsuffix⟩ := hprefix
      obtain ⟨rfl, -⟩ := List.cons.inj hsuffix
      simp [isSequenceMarker, List.isPrefixOf]

theorem readSequenceLine_nested {line : List Char}
    (hline : IsNestedLine column line) (hstate : Resumes column state) :
    (∀ node ∈ (readSequenceLine state line).2.node?,
        column < node.indentation) ∧
      Resumes column (readSequenceLine state line).1 := by
  obtain ⟨hnodes, hopened⟩ := readSequenceLine_columns state line
  rcases hline.2 with hblank | hdeeper | ⟨rest, rfl, hrest⟩
  · rw [readSequenceLine, if_pos hblank]
    exact ⟨fun node hnode => (Option.not_mem_none _ hnode).elim, hstate⟩
  · refine ⟨fun node hnode => hdeeper.trans_le (hnodes node hnode), ?_⟩
    intro opened h
    rcases hopened opened h with hold | hnew
    · exact hstate opened hold
    · exact hdeeper.le.trans hnew
  · have hcount := @leadingSpaceCount_replicate_append column '-'
      (by decide) rest
    have hdrop : (List.replicate column ' ' ++ '-' :: rest).drop column =
        '-' :: rest := by
      rw [List.drop_append_of_le_length (by simp)]
      simp
    have hsolid : trimmed (List.replicate column ' ' ++ '-' :: rest) ≠ [] := by
      intro hnil
      have hall := trimmed_eq_nil_iff.mp hnil '-' (by simp)
      exact absurd hall (by decide)
    obtain ⟨hcontent, hopened⟩ := readSequenceContent_columns column
      (trimmed (withoutComment ('-' :: rest)))
    rw [readSequenceLine_of_resumes (by rwa [hcount]) hsolid, hcount, hdrop,
      if_neg (by simp)]
    exact ⟨fun node hnode =>
      (hcontent node hnode).2 (isSequenceMarker_of_dash hrest), hopened⟩

/-- The block below a key holds only deeper nodes. -/
theorem lineNodes_nested {nested : List (List Char)}
    (hnested : ∀ line ∈ nested, IsNestedLine column line)
    (hstate : Resumes column state) :
    (∀ node ∈ lineNodes state nested, column < node.indentation) ∧
      Resumes column (stateBehind state nested) := by
  induction nested generalizing state with
  | nil => exact ⟨by simp [lineNodes, readSequenceLines], hstate⟩
  | cons line nested ih =>
    rw [List.forall_mem_cons] at hnested
    obtain ⟨hline, hstate⟩ := readSequenceLine_nested hnested.1 hstate
    obtain ⟨hnodes, hbehind⟩ := ih hnested.2 hstate
    refine ⟨?_, hbehind⟩
    rw [lineNodes_cons]
    intro node hnode
    rcases List.mem_append.mp hnode with hnode | hnode
    · exact hline node (Option.mem_toList.mp hnode)
    · exact hnodes node hnode

/-- The body of a block scalar is skipped. -/
theorem lineNodes_body {body : List (List Char)}
    (hbody : ∀ line ∈ body, IsBodyLine column line) :
    lineNodes (some column) body = [] ∧
      stateBehind (some column) body = some column := by
  induction body with
  | nil => exact ⟨rfl, rfl⟩
  | cons line body ih =>
    rw [List.forall_mem_cons] at hbody
    have hline : ∃ unsupported, readSequenceLine (some column) line =
        (some column, { unsupported := unsupported, node? := none }) := by
      rw [readSequenceLine]
      split_ifs with hblank
      · exact ⟨false, rfl⟩
      · have hdeeper := hbody.1.2.resolve_left hblank
        dsimp only
        rw [if_pos (by simpa using hdeeper)]
        exact ⟨true, rfl⟩
    obtain ⟨unsupported, hline⟩ := hline
    obtain ⟨hnodes, hstate⟩ := ih hbody.2
    constructor
    · rw [lineNodes_cons, hline]
      exact hnodes
    · rw [stateBehind, List.foldl_cons, hline]
      exact hstate

/-! ## Fields and items -/

/-- What the lines of a field behind its lead are read as. -/
theorem lineNodes_field {starts : Bool} {lead : List Char}
    (h : field.IsWritten column)
    (hread : readSequenceLine state (lead ++ field.text) =
      readKeyed starts column field.text) :
    lineNodes state (field.lines lead) = field.nodes starts column ∧
      Resumes column (stateBehind state (field.lines lead)) := by
  have hkeyed := Field.readKeyed_text h starts
  rw [Field.lines, lineNodes_cons, stateBehind, List.foldl_cons, hread, hkeyed,
    Field.nodes]
  rcases hvalue : field.value with ⟨gap, value⟩ | ⟨nested⟩ |
    ⟨gap, header, body⟩
  · exact ⟨rfl, resumes_none column⟩
  · obtain ⟨-, hbehind⟩ :=
      lineNodes_nested (h.block nested hvalue) (resumes_none column)
    exact ⟨rfl, hbehind⟩
  · obtain ⟨hnodes, hbehind⟩ :=
      lineNodes_body (h.blockScalar gap header body hvalue).2.2
    refine ⟨?_, ?_⟩
    · rw [FieldValue.below, hnodes, List.append_nil]
    · change Resumes column (stateBehind (some column) body)
      rw [hbehind]
      exact fun opened hopened => (Option.some.inj hopened).le

/-- The fields of a mapping in its column. -/
theorem lineNodes_fields {fields : List Field}
    (hfields : ∀ field ∈ fields, field.IsWritten column)
    (hstate : Resumes column state) :
    lineNodes state (fields.flatMap
        (Field.lines · (List.replicate column ' '))) =
        fields.flatMap (Field.nodes false column) ∧
      Resumes column (stateBehind state (fields.flatMap
        (Field.lines · (List.replicate column ' ')))) := by
  induction fields generalizing state with
  | nil => exact ⟨rfl, hstate⟩
  | cons field fields ih =>
    rw [List.forall_mem_cons] at hfields
    obtain ⟨hfield, hfields⟩ := hfields
    obtain ⟨hnodes, hbehind⟩ := lineNodes_field hfield
      (readSequenceLine_field hfield hstate)
    obtain ⟨hrest, hlast⟩ := ih hfields hbehind
    simp only [List.flatMap_cons]
    rw [lineNodes_append, stateBehind_append, hnodes, hrest]
    exact ⟨rfl, hlast⟩

end Lines

def Item.nodes (marker : Nat) (item : Item) : List SequenceNode :=
  if item.lone then
    itemNode (marker + 1) true [] ::
      item.fields.flatMap (Field.nodes false (item.column marker))
  else
    match item.fields with
    | [] => []
    | first :: fields =>
      first.nodes true (item.column marker) ++
        fields.flatMap (Field.nodes false (item.column marker))

section Items

variable {item : Item} {column marker : Nat} {state : Option Nat}

theorem lineNodes_item (h : item.IsWritten marker)
    (hstate : Resumes marker state) :
    lineNodes state (item.lines marker) = item.nodes marker ∧
      Resumes marker (stateBehind state (item.lines marker)) := by
  have hle : marker ≤ item.column marker := by
    rw [Item.column]
    split_ifs <;> omega
  by_cases hlone : item.lone = true
  · obtain ⟨hnodes, hbehind⟩ := lineNodes_fields h.fields (resumes_none _)
    rw [Item.lines, Item.nodes, if_pos hlone, if_pos hlone, lineNodes_cons,
      stateBehind, List.foldl_cons, readSequenceLine_lone hstate, hnodes]
    exact ⟨rfl, hbehind.mono hle⟩
  · rw [Item.lines, Item.nodes, if_neg hlone, if_neg hlone]
    rcases hfields : item.fields with _ | ⟨first, fields⟩
    · exact absurd hfields h.fields_ne_nil
    have hcolumn : item.column marker = marker + 2 + item.gap := by
      rw [Item.column, if_neg hlone]
    have hwritten := h.fields
    rw [hfields, List.forall_mem_cons] at hwritten
    obtain ⟨hfirst, hrest⟩ := hwritten
    have hread : readSequenceLine state (item.lead marker ++ first.text) =
        readKeyed true (item.column marker) first.text := by
      rw [hcolumn] at hfirst ⊢
      rw [Item.lead, List.append_assoc, List.cons_append]
      exact readSequenceLine_marked hfirst hstate
    obtain ⟨hnodes, hbehind⟩ := lineNodes_field hfirst hread
    obtain ⟨hmore, hlast⟩ := lineNodes_fields hrest hbehind
    dsimp only
    rw [lineNodes_append, stateBehind_append, hnodes, hmore]
    exact ⟨rfl, hlast.mono hle⟩

theorem lineNodes_items {items : List Item}
    (hitems : ∀ item ∈ items, item.IsWritten marker)
    (hstate : Resumes marker state) :
    lineNodes state (items.flatMap (Item.lines marker)) =
        items.flatMap (Item.nodes marker) ∧
      Resumes marker (stateBehind state (items.flatMap (Item.lines marker))) := by
  induction items generalizing state with
  | nil => exact ⟨rfl, hstate⟩
  | cons item items ih =>
    rw [List.forall_mem_cons] at hitems
    obtain ⟨hnodes, hbehind⟩ := lineNodes_item hitems.1 hstate
    obtain ⟨hrest, hlast⟩ := ih hitems.2 hbehind
    simp only [List.flatMap_cons]
    rw [lineNodes_append, stateBehind_append, hnodes, hrest]
    exact ⟨rfl, hlast⟩

end Items

namespace Section

def nodesBelow (column : Nat) : Section → List SequenceNode
  | defaults step fields =>
    fields.flatMap (Field.nodes false (column + 1 + step))
  | remotes step items => items.flatMap (Item.nodes (column + step))
  | projects step items => items.flatMap (Item.nodes (column + step))

def nodes (column : Nat) (manifestSection : Section) : List SequenceNode :=
  sequenceNodeOf false column manifestSection.key [] ::
    manifestSection.nodesBelow column

end Section

/-- A key without marks and blanks. -/
theorem isFieldKey_of_all {key : List Char} (hne : key ≠ [])
    (hall : key.all (fun c => isAsciiBlank c = false ∧ isQuote c = false ∧
      c ≠ '\\' ∧ c ≠ '#' ∧ c ≠ ':' ∧ c ≠ '\n' ∧ opensMapping c = true ∧
        c ≠ '\x7b') = true) : IsFieldKey key := by
  have hclass : ∀ c ∈ key, isAsciiBlank c = false ∧ isQuote c = false ∧
      c ≠ '\\' ∧ c ≠ '#' ∧ c ≠ ':' ∧ c ≠ '\n' ∧ opensMapping c = true ∧
        c ≠ '\x7b' := fun c hc => of_decide_eq_true (List.all_eq_true.mp hall c hc)
  refine ⟨⟨hne, fun _ => ?_, by simp, fun c hc => ?_⟩, ?_, ?_, ?_⟩
  · exact isSolid_of_forall hne fun c hc => (hclass c hc).1
  · obtain ⟨-, hquote, hslash, hhash, -⟩ := hclass c hc
    exact ⟨hquote, hslash, hhash⟩
  · exact fun hc => (hclass _ hc).2.2.2.2.1 rfl
  · exact fun hc => (hclass _ hc).2.2.2.2.2.1 rfl
  · intro c hc
    exact (hclass c (List.mem_of_head? hc)).2.2.2.2.2.2

theorem readSequenceLine_key {key : List Char}
    (hkey : key ∈ [manifestKey, defaultsKey, remotesKey, projectsKey])
    {column : Nat} {state : Option Nat} (hstate : Resumes column state) :
    readSequenceLine state (List.replicate column ' ' ++ (key ++ [':'])) =
      (none, .node (sequenceNodeOf false column key [])) := by
  have hfield : IsFieldKey key := by
    simp only [List.mem_cons, List.not_mem_nil, or_false] at hkey
    rcases hkey with rfl | rfl | rfl | rfl
    all_goals exact isFieldKey_of_all (by decide) (by decide)
  have hwritten : Field.IsWritten { key := key, value := .block [] } column :=
    ⟨hfield, by simp, by simp, by simp⟩
  have hread := readSequenceLine_field hwritten hstate
  rw [Field.readKeyed_text hwritten] at hread
  exact hread

section Sections

variable {manifestSection : Section} {column : Nat} {state : Option Nat}

theorem section_key_mem (manifestSection : Section) :
    manifestSection.key ∈
      [manifestKey, defaultsKey, remotesKey, projectsKey] := by
  cases manifestSection <;> simp [Section.key]

theorem lineNodes_section (h : manifestSection.IsWritten column)
    (hstate : Resumes column state) :
    lineNodes state (manifestSection.lines column) =
        manifestSection.nodes column ∧
      Resumes column (stateBehind state (manifestSection.lines column)) := by
  have hbelow : lineNodes none (manifestSection.below column) =
        manifestSection.nodesBelow column ∧
      Resumes column (stateBehind none (manifestSection.below column)) := by
    cases manifestSection with
    | defaults step fields =>
      obtain ⟨hnodes, hbehind⟩ := lineNodes_fields h.2 (resumes_none _)
      exact ⟨hnodes, hbehind.mono (by omega)⟩
    | remotes step items =>
      obtain ⟨hnodes, hbehind⟩ :=
        lineNodes_items (fun item hitem => (h item hitem).1) (resumes_none _)
      exact ⟨hnodes, hbehind.mono (by omega)⟩
    | projects step items =>
      obtain ⟨hnodes, hbehind⟩ := lineNodes_items h (resumes_none _)
      exact ⟨hnodes, hbehind.mono (by omega)⟩
  rw [Section.lines, lineNodes_cons, stateBehind, List.foldl_cons,
    readSequenceLine_key (section_key_mem manifestSection) hstate, hbelow.1]
  exact ⟨rfl, hbelow.2⟩

end Sections

theorem lineNodes_sections {sections : List Section} {column : Nat}
    (hsections : ∀ manifestSection ∈ sections, manifestSection.IsWritten column)
    {state : Option Nat} (hstate : Resumes column state) :
    lineNodes state (sections.flatMap (Section.lines column)) =
      sections.flatMap (Section.nodes column) := by
  induction sections generalizing state with
  | nil => rfl
  | cons manifestSection sections ih =>
    rw [List.forall_mem_cons] at hsections
    obtain ⟨hnodes, hbehind⟩ := lineNodes_section hsections.1 hstate
    simp only [List.flatMap_cons]
    rw [lineNodes_append, hnodes, ih hsections.2 hbehind]

theorem lineNodes_document (document : Document) :
    lineNodes none document.lines =
      sequenceNodeOf false document.column manifestKey [] ::
        document.sections.flatMap
          (Section.nodes document.sectionColumn) := by
  have hsections := @lineNodes_sections document.sections
    document.sectionColumn document.isWritten none (resumes_none _)
  rw [Document.lines, lineNodes_cons,
    readSequenceLine_key (by simp) (resumes_none _), hsections]
  rfl

end Bomwerk.Embedded.West
