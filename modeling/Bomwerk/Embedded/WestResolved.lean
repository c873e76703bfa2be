import Bomwerk.Embedded.WestRecords
import Mathlib.Data.List.ModifyLast

/-!
# Resolved manifests

A written manifest is read as what it holds, and its projects resolve by that,
exactly when its items are aligned behind blocks.
-/

namespace Bomwerk.Embedded.West

open Bomwerk.Core Bomwerk.Core.YamlSubset
open Bomwerk.Ci.GithubActions (IsPlainScalar isPlainScalar_of_forall)

section Sequences

variable {Rec : Type*} {read : SequenceNode → Manifest → Manifest}
  {set : SequenceNode → Rec → Rec} {record : Item → Rec} {start : Rec}
  {put : List Rec → Manifest} {marker : Nat}
  (hstart : ∀ node records, node.startsSequenceItem = true →
    isBareScalar node = false →
      read node (put records) = put (records ++ [set node start]))
  (hnext : ∀ node records last, node.startsSequenceItem = false →
    isBareScalar node = false →
      read node (put (records ++ [last])) = put (records ++ [set node last]))

include hstart hnext

theorem foldl_read_item {item : Item} (h : item.IsWritten marker)
    (records : List Rec) :
    (item.kept marker).foldl (fun manifest node => read node manifest)
        (put records) =
      put (records ++ [(item.kept marker).foldl
        (fun record node => set node record) start]) := by
  obtain ⟨first, nodes, hkept, hfirst, hnodes, hbare⟩ := exists_kept_cons h
  rw [hkept, List.foldl_cons, List.foldl_cons,
    hstart first records hfirst (hbare first List.mem_cons_self)]
  replace hbare : ∀ node ∈ nodes, isBareScalar node = false :=
    fun node hnode => hbare node (List.mem_cons_of_mem _ hnode)
  generalize set first start = last
  clear hkept
  induction nodes generalizing last with
  | nil => rfl
  | cons node nodes ih =>
    rw [List.forall_mem_cons] at hnodes hbare
    rw [List.foldl_cons, List.foldl_cons, hnext node records last hnodes.1
      hbare.1, ih hnodes.2 hbare.2]

theorem foldl_read_items {items : List Item}
    (hitems : ∀ item ∈ items, item.IsWritten marker)
    (hrecord : ∀ item ∈ items, (item.kept marker).foldl
      (fun record node => set node record) start = record item)
    (records : List Rec) :
    (items.flatMap (Item.kept marker)).foldl
        (fun manifest node => read node manifest) (put records) =
      put (records ++ items.map record) := by
  induction items generalizing records with
  | nil => simp
  | cons item items ih =>
    rw [List.forall_mem_cons] at hitems hrecord
    rw [List.flatMap_cons, List.foldl_append,
      foldl_read_item hstart hnext hitems.1, hrecord.1,
      ih hitems.2 hrecord.2]
    simp

end Sequences

theorem foldl_readRemoteField {marker : Nat} {items : List Item}
    (hitems : ∀ item ∈ items, item.IsWritten marker) (manifest : Manifest) :
    (items.flatMap (Item.kept marker)).foldl
        (fun manifest node => readRemoteField node manifest) manifest =
      { manifest with
        remotes := manifest.remotes ++ items.map Item.remote } := by
  refine @foldl_read_items Remote readRemoteField Remote.setField Item.remote
    {} (fun records => { manifest with remotes := records }) marker ?_ ?_ items
    hitems (fun item hitem => foldl_setField_remote (hitems item hitem))
    manifest.remotes
  · intro node records hstarts hbare
    simp [readRemoteField, hstarts, hbare, List.modifyLast_concat]
  · intro node records last hstarts hbare
    simp [readRemoteField, hstarts, hbare, List.modifyLast_concat]

theorem foldl_readProjectField {marker : Nat} {items : List Item}
    (hitems : ∀ item ∈ items, item.IsWritten marker) (manifest : Manifest) :
    (items.flatMap (Item.kept marker)).foldl
        (fun manifest node => readProjectField node manifest) manifest =
      { manifest with
        projects := manifest.projects ++ items.map Item.project } := by
  refine @foldl_read_items Project readProjectField Project.setField
    Item.project {} (fun records => { manifest with projects := records })
    marker ?_ ?_ items hitems
    (fun item hitem => foldl_setField_project (hitems item hitem))
    manifest.projects
  · intro node records hstarts hbare
    simp [readProjectField, hstarts, hbare, List.modifyLast_concat]
  · intro node records last hstarts hbare
    simp [readProjectField, hstarts, hbare, List.modifyLast_concat]

/-- What a node below `defaults` sets. -/
def setDefault (node : SequenceNode) (manifest : Manifest) : Manifest :=
  if node.key = remoteKey then { manifest with defaultRemote := node.value }
  else if node.key = revisionKey then
    { manifest with defaultRevision := node.value }
  else manifest

theorem foldl_setDefault_eq (nodes : List SequenceNode) (manifest : Manifest) :
    nodes.foldl (fun manifest node => setDefault node manifest) manifest =
      { manifest with
        defaultRemote := (nodes.foldl
          (fun manifest node => setDefault node manifest)
            manifest).defaultRemote
        defaultRevision := (nodes.foldl
          (fun manifest node => setDefault node manifest)
            manifest).defaultRevision } := by
  induction nodes generalizing manifest with
  | nil => rfl
  | cons node nodes ih =>
    rw [List.foldl_cons, ih]
    unfold setDefault
    split_ifs <;> rfl

theorem foldl_setDefault {column : Nat} {fields : List Field}
    (hfields : ∀ field ∈ fields, field.IsWritten column)
    (hnodup : (fields.map Field.key).Nodup) (manifest : Manifest) :
    (fields.flatMap (Field.head false column)).foldl
        (fun manifest node => setDefault node manifest) manifest =
      { manifest with
        defaultRemote :=
          ((fields.find? fun field => field.key = remoteKey).map
            fun field => field.value.content).getD manifest.defaultRemote
        defaultRevision :=
          ((fields.find? fun field => field.key = revisionKey).map
            fun field => field.value.content).getD
              manifest.defaultRevision } := by
  have hkeys : revisionKey ≠ remoteKey := by decide
  have hcontent : ∀ (node : SequenceNode) (field : Field),
      node.value = field.value.content → node.opensBlock = field.value.isBlock →
          node.value = field.value.content := fun _ _ hvalue _ => hvalue
  have hremote := @get_foldl_heads Manifest (List Char) setDefault
    Manifest.defaultRemote remoteKey (fun node => node.value)
    (fun field => field.value.content) (by decide)
    (fun node record hkey => by simp [setDefault, hkey])
    (fun node record hkey => by
      simp only [setDefault, hkey, if_false]
      split_ifs <;> rfl)
    hcontent fields column hfields hnodup manifest
  have hrevision := @get_foldl_heads Manifest (List Char) setDefault
    Manifest.defaultRevision revisionKey (fun node => node.value)
    (fun field => field.value.content) (by decide)
    (fun node record hkey => by simp [setDefault, hkey, hkeys])
    (fun node record hkey => by
      simp only [setDefault, hkey, if_false]
      split_ifs <;> rfl)
    hcontent fields column hfields hnodup manifest
  rw [foldl_setDefault_eq, hremote, hrevision]

namespace Section

def readRemoteItems (column : Nat) : Section → List Item
  | remotes step items => readItems (column + step) none items
  | _ => []

def readProjectItems (column : Nat) : Section → List Item
  | projects step items => readItems (column + step) none items
  | _ => []

/-- What the nodes below the key of a section do to a manifest. -/
def effect (column : Nat) (manifestSection : Section) (manifest : Manifest) :
    Manifest :=
  let default (key old : List Char) :=
    ((manifestSection.defaultFields.find? fun field => field.key = key).map
      fun field => field.value.content).getD old
  { manifest with
    defaultRemote := default remoteKey manifest.defaultRemote
    defaultRevision := default revisionKey manifest.defaultRevision
    remotes := manifest.remotes ++
      (manifestSection.readRemoteItems column).map Item.remote
    projects := manifest.projects ++
      (manifestSection.readProjectItems column).map Item.project }

end Section

section Sections

variable {manifestSection : Section} {column : Nat}

theorem foldl_readSectionNode (h : manifestSection.IsWritten column)
    (manifest : Manifest) :
    (keptNodes none (manifestSection.nodesBelow column)).foldl
        (fun manifest node =>
          readSectionNode manifestSection.key node manifest) manifest =
      manifestSection.effect column manifest := by
  have hremotes : remotesKey ≠ defaultsKey := by decide
  have hprojects : projectsKey ≠ defaultsKey ∧ projectsKey ≠ remotesKey := by
    decide
  cases manifestSection with
  | defaults step fields =>
    have hread : ∀ node manifest, readSectionNode defaultsKey node manifest =
        setDefault node manifest := fun node manifest => if_pos rfl
    obtain ⟨hkept, -⟩ := keptNodes_fields h.2 (resumes_none _)
    rw [Section.nodesBelow, hkept]
    simp only [Section.key, hread]
    rw [foldl_setDefault h.2 h.1]
    simp [Section.effect, Section.defaultFields, Section.readRemoteItems,
      Section.readProjectItems]
  | remotes step items =>
    have hread : ∀ node manifest, readSectionNode remotesKey node manifest =
        readRemoteField node manifest := fun node manifest => by
      rw [readSectionNode, if_neg hremotes, if_pos rfl]
    have hitems : ∀ item ∈ items, item.IsWritten (column + step) :=
      fun item hitem => (h item hitem).1
    rw [Section.nodesBelow, keptNodes_items hitems]
    simp only [Section.key, hread]
    rw [foldl_readRemoteField fun item hitem =>
      hitems item ((readItems_sublist items).subset hitem)]
    simp [Section.effect, Section.defaultFields, Section.readRemoteItems,
      Section.readProjectItems]
  | projects step items =>
    have hread : ∀ node manifest, readSectionNode projectsKey node manifest =
        readProjectField node manifest := fun node manifest => by
      rw [readSectionNode, if_neg hprojects.1, if_neg hprojects.2, if_pos rfl]
    rw [Section.nodesBelow, keptNodes_items h]
    simp only [Section.key, hread]
    rw [foldl_readProjectField fun item hitem =>
      h item ((readItems_sublist items).subset hitem)]
    simp [Section.effect, Section.defaultFields, Section.readRemoteItems,
      Section.readProjectItems]

theorem lt_indentation_below (h : manifestSection.IsWritten column) :
    ∀ node ∈ manifestSection.nodesBelow column, column < node.indentation := by
  intro node hnode
  have hitems : ∀ (step : Nat) (items : List Item),
      (∀ item ∈ items, Item.IsWritten (column + step) item) →
        node ∈ items.flatMap (Item.nodes (column + step)) →
          column < node.indentation := by
    intro step items hwritten hmem
    obtain ⟨item, hitem, hmem⟩ := List.mem_flatMap.mp hmem
    have hle := le_indentation_item (hwritten item hitem) node hmem
    have hlt := (startColumn_le (column + step) item).1
    omega
  cases manifestSection with
  | defaults step fields =>
    obtain ⟨field, hfield, hnode⟩ := List.mem_flatMap.mp hnode
    have hle := le_indentation_field (h.2 field hfield) false node hnode
    omega
  | remotes step items =>
    exact hitems step items (fun item hitem => (h item hitem).1) hnode
  | projects step items => exact hitems step items h hnode

end Sections

/-! ## Runs over a document -/

/-- Only the frame of the manifest is to the left of the sections. -/
def IsOverFront (column manifestColumn : Nat) (stack : List Frame) : Prop :=
  ∃ above, stack = above ++ [⟨manifestColumn, manifestKey⟩] ∧
    ∀ frame ∈ above, column ≤ frame.indentation

section Front

variable {column manifestColumn : Nat} {stack : List Frame}

theorem isOverFront_enclosing (hcolumn : manifestColumn < column)
    (hstack : IsOverFront column manifestColumn stack) {indentation : Nat}
    (hle : column ≤ indentation) :
    IsOverFront column manifestColumn (enclosing indentation stack) := by
  obtain ⟨above, rfl, habove⟩ := hstack
  induction above with
  | nil =>
    refine ⟨[], ?_, by simp⟩
    exact (enclosing_cons _ _).trans (if_neg (hcolumn.trans_le hle).not_ge)
  | cons frame above ih =>
    rw [List.cons_append, enclosing_cons]
    split_ifs
    · exact ih fun frame h => habove frame (List.mem_cons_of_mem _ h)
    · exact ⟨frame :: above, rfl, habove⟩

theorem isOverFront_foldl (hcolumn : manifestColumn < column)
    (hstack : IsOverFront column manifestColumn stack)
    {nodes : List SequenceNode}
    (hnodes : ∀ node ∈ nodes, column ≤ node.indentation)
    (manifest : Manifest) :
    IsOverFront column manifestColumn
      (nodes.foldl manifestStep (stack, manifest)).1 := by
  induction nodes generalizing stack manifest with
  | nil => exact hstack
  | cons node nodes ih =>
    rw [List.forall_mem_cons] at hnodes
    obtain ⟨above, henclosing, habove⟩ :=
      isOverFront_enclosing hcolumn hstack hnodes.1
    have hstep : IsOverFront column manifestColumn
        (manifestStep (stack, manifest) node).1 := by
      rw [manifestStep]
      dsimp only
      rw [henclosing]
      split_ifs
      · refine ⟨⟨node.indentation, node.key⟩ :: above, rfl, ?_⟩
        rw [List.forall_mem_cons]
        exact ⟨hnodes.1, habove⟩
      · exact ⟨above, rfl, habove⟩
    rw [List.foldl_cons]
    exact ih hstep hnodes.2 _

theorem enclosing_of_isOverFront (hcolumn : manifestColumn < column)
    (hstack : IsOverFront column manifestColumn stack) :
    enclosing column stack = [⟨manifestColumn, manifestKey⟩] := by
  obtain ⟨above, rfl, habove⟩ := hstack
  induction above with
  | nil => exact (enclosing_cons _ _).trans (if_neg hcolumn.not_ge)
  | cons frame above ih =>
    rw [List.forall_mem_cons] at habove
    rw [List.cons_append, enclosing_cons, if_pos habove.1, ih habove.2]

/-- A section closes the one before it and has its own effect. -/
theorem foldl_section {manifestSection : Section}
    (hcolumn : manifestColumn < column)
    (hstack : IsOverFront column manifestColumn stack)
    (h : manifestSection.IsWritten column) (manifest : Manifest) :
    ((manifestSection.nodes column).foldl manifestStep (stack, manifest)).2 =
      manifestSection.effect column manifest := by
  have hkey : manifestSection.key ≠ [] := by
    have hmem := section_key_mem manifestSection
    intro hnil
    rw [hnil] at hmem
    exact absurd hmem (by decide)
  have hstep : manifestStep (stack, manifest)
      (sequenceNodeOf false column manifestSection.key []) =
        (sectionFrames column manifestColumn manifestSection.key,
          manifest) := by
    have henclosing := enclosing_of_isOverFront hcolumn hstack
    rw [manifestStep]
    dsimp only [sequenceNodeOf]
    rw [henclosing]
    simp [hkey, sectionFrames, readNode]
  rw [Section.nodes, List.foldl_cons, hstep,
    (foldl_manifestStep .base (lt_indentation_below h) manifest).2,
    foldl_readSectionNode h]

theorem foldl_sections {sections : List Section}
    (hcolumn : manifestColumn < column)
    (hstack : IsOverFront column manifestColumn stack)
    (hsections : ∀ manifestSection ∈ sections,
      manifestSection.IsWritten column) (manifest : Manifest) :
    ((sections.flatMap (Section.nodes column)).foldl manifestStep
        (stack, manifest)).2 =
      sections.foldl (fun manifest manifestSection =>
        manifestSection.effect column manifest) manifest := by
  induction sections generalizing stack manifest with
  | nil => rfl
  | cons manifestSection sections ih =>
    rw [List.forall_mem_cons] at hsections
    have hnodes : ∀ node ∈ manifestSection.nodes column,
        column ≤ node.indentation := by
      rw [Section.nodes, List.forall_mem_cons]
      exact ⟨le_rfl, fun node hnode =>
        (lt_indentation_below hsections.1 node hnode).le⟩
    have hbehind := isOverFront_foldl hcolumn hstack hnodes manifest
    have heffect := foldl_section hcolumn hstack hsections.1 manifest
    rw [List.flatMap_cons, List.foldl_append, List.foldl_cons, ← heffect]
    exact ih hbehind hsections.2 _

end Front

section Effects

variable {sections : List Section} {column : Nat}

/-- The effects of sections, of which at most one has defaults. -/
theorem foldl_effect (hnodup : (sections.map Section.key).Nodup)
    (manifest : Manifest) :
    sections.foldl (fun manifest manifestSection =>
        manifestSection.effect column manifest) manifest =
      let default (key old : List Char) :=
        (((sections.flatMap Section.defaultFields).find?
          fun field => field.key = key).map
            fun field => field.value.content).getD old
      { manifest with
        defaultRemote := default remoteKey manifest.defaultRemote
        defaultRevision := default revisionKey manifest.defaultRevision
        remotes := manifest.remotes ++
          (sections.flatMap (Section.readRemoteItems column)).map Item.remote
        projects := manifest.projects ++
          (sections.flatMap (Section.readProjectItems column)).map
            Item.project } := by
  induction sections generalizing manifest with
  | nil => simp
  | cons manifestSection sections ih =>
    rw [List.map_cons, List.nodup_cons] at hnodup
    rw [List.foldl_cons, ih hnodup.2]
    have hdefault : ∀ (key old : List Char),
        (((sections.flatMap Section.defaultFields).find?
          fun field => field.key = key).map
            fun field => field.value.content).getD
          (((manifestSection.defaultFields.find?
            fun field => field.key = key).map
              fun field => field.value.content).getD old) =
        ((((manifestSection :: sections).flatMap
          Section.defaultFields).find? fun field => field.key = key).map
            fun field => field.value.content).getD old := by
      intro key old
      rw [List.flatMap_cons]
      rcases hfields : manifestSection.defaultFields with _ | ⟨field, fields⟩
      · rfl
      have hkey : manifestSection.key = defaultsKey := by
        cases manifestSection with
        | defaults step fields => rfl
        | remotes step items => cases hfields
        | projects step items => cases hfields
      have hrest : sections.flatMap Section.defaultFields = [] := by
        rw [List.flatMap_eq_nil_iff]
        intro other hother
        cases other with
        | defaults step fields =>
          exact absurd (List.mem_map.mpr ⟨_, hother, hkey.symm⟩) hnodup.1
        | remotes step items => rfl
        | projects step items => rfl
      rw [hrest, List.append_nil]
      rfl
    simp only [Section.effect, hdefault, List.flatMap_cons, List.map_append,
      List.append_assoc]

end Effects

/-! ## Lines -/

section OneLine

theorem newline_notMem_scalar {scalar : Scalar} (h : scalar.IsWritten) :
    '\n' ∉ scalar.text := by
  cases scalar with
  | plain text =>
    have hplain : IsPlainScalar text := h
    exact hplain.one_line.1
  | quoted quote text =>
    have hquote : '\n' ≠ quote := by
      rintro rfl
      exact absurd h.1 (by decide)
    simp [Scalar.text, h.2.1, hquote]
  | flowSequence interior => simpa [Scalar.text] using h.1
  | flowMapping interior => simpa [Scalar.text] using h.1

theorem newline_notMem_replicate (count : Nat) :
    '\n' ∉ List.replicate count ' ' := fun hmem =>
  absurd (List.eq_of_mem_replicate hmem) (by decide)

theorem newline_notMem_field {field : Field} {column : Nat}
    (h : field.IsWritten column) {lead : List Char} (hlead : '\n' ∉ lead) :
    ∀ line ∈ field.lines lead, '\n' ∉ line := by
  have hvalue : '\n' ∉ field.value.text ∧
      ∀ line ∈ field.value.below, '\n' ∉ line := by
    rcases hshape : field.value with ⟨gap, value⟩ | ⟨nested⟩ |
      ⟨gap, header, body⟩
    · refine ⟨?_, by simp [FieldValue.below]⟩
      rw [FieldValue.text, List.mem_append, not_or]
      exact ⟨newline_notMem_replicate _,
        newline_notMem_scalar (h.scalar gap value hshape)⟩
    · exact ⟨by simp [FieldValue.text],
        fun line hline => (h.block nested hshape line hline).1⟩
    · obtain ⟨hheader, -, hbody⟩ := h.blockScalar gap header body hshape
      refine ⟨?_, fun line hline => (hbody line hline).1⟩
      rw [FieldValue.text, List.mem_append, not_or]
      exact ⟨newline_notMem_replicate _, (solid_header hheader).2.2.2⟩
  rw [Field.lines, List.forall_mem_cons]
  refine ⟨?_, hvalue.2⟩
  simp [Field.text, hlead, h.key.one_line, hvalue.1]

theorem newline_notMem_fields {fields : List Field} {column : Nat}
    (hfields : ∀ field ∈ fields, field.IsWritten column) :
    ∀ line ∈ fields.flatMap (Field.lines · (List.replicate column ' ')),
      '\n' ∉ line := by
  intro line hline
  obtain ⟨field, hfield, hline⟩ := List.mem_flatMap.mp hline
  exact newline_notMem_field (hfields field hfield)
    (newline_notMem_replicate column) line hline

theorem newline_notMem_item {item : Item} {marker : Nat}
    (h : item.IsWritten marker) : ∀ line ∈ item.lines marker, '\n' ∉ line := by
  rw [Item.lines]
  by_cases hlone : item.lone = true
  · rw [if_pos hlone, List.forall_mem_cons]
    exact ⟨by simp, newline_notMem_fields h.fields⟩
  · rw [if_neg hlone]
    rcases hfields : item.fields with _ | ⟨first, fields⟩
    · exact absurd hfields h.fields_ne_nil
    have hwritten := h.fields
    rw [hfields, List.forall_mem_cons] at hwritten
    intro line hline
    rcases List.mem_append.mp hline with hline | hline
    · refine newline_notMem_field hwritten.1 ?_ line hline
      simp [Item.lead]
    · exact newline_notMem_fields hwritten.2 line hline

theorem newline_notMem_section {manifestSection : Section} {column : Nat}
    (h : manifestSection.IsWritten column) :
    ∀ line ∈ manifestSection.lines column, '\n' ∉ line := by
  rw [Section.lines, List.forall_mem_cons]
  constructor
  · have hkey : '\n' ∉ manifestSection.key := by
      cases manifestSection with
      | defaults step fields =>
        exact (by decide : '\n' ∉ defaultsKey)
      | remotes step items => exact (by decide : '\n' ∉ remotesKey)
      | projects step items => exact (by decide : '\n' ∉ projectsKey)
    simp [hkey]
  · intro line hline
    cases manifestSection with
    | defaults step fields => exact newline_notMem_fields h.2 line hline
    | remotes step items =>
      obtain ⟨item, hitem, hline⟩ := List.mem_flatMap.mp hline
      exact newline_notMem_item (h item hitem).1 line hline
    | projects step items =>
      obtain ⟨item, hitem, hline⟩ := List.mem_flatMap.mp hline
      exact newline_notMem_item (h item hitem) line hline

end OneLine

namespace Document

variable (document : Document)

theorem newline_notMem_lines : ∀ line ∈ document.lines, '\n' ∉ line := by
  rw [lines, List.forall_mem_cons]
  constructor
  · have hkey : '\n' ∉ manifestKey := by decide
    simp [hkey]
  · intro line hline
    obtain ⟨manifestSection, hsection, hline⟩ := List.mem_flatMap.mp hline
    exact newline_notMem_section
      (document.isWritten manifestSection hsection) line hline

theorem readManifest_text :
    (readManifest document.text).1 =
      { document.manifest with
        remotes := (document.sections.flatMap
          (Section.readRemoteItems document.sectionColumn)).map Item.remote
        projects := (document.sections.flatMap
          (Section.readProjectItems document.sectionColumn)).map
            Item.project } := by
  have hlines : document.text.splitOn '\n' = document.lines :=
    List.splitOn_intercalate '\n' document.newline_notMem_lines (by simp [lines])
  have hnodes : (sequenceReadings document.text).filterMap
      SequenceReading.node? = lineNodes none document.lines := by
    rw [sequenceReadings, hlines, lineNodes]
  have hfirst : manifestStep ([], {})
      (sequenceNodeOf false document.column manifestKey []) =
        ([⟨document.column, manifestKey⟩], { found := true }) := by
    rfl
  have hcolumn : document.column < document.sectionColumn := by
    rw [sectionColumn]
    omega
  have hstack : IsOverFront document.sectionColumn document.column
      [⟨document.column, manifestKey⟩] := ⟨[], rfl, by simp⟩
  rw [readManifest]
  dsimp only
  rw [hnodes, lineNodes_document, List.foldl_cons, hfirst,
    foldl_sections hcolumn hstack document.isWritten,
    foldl_effect document.keys_nodup]
  simp [manifest, contentOf]

/-- The rules of the tool, over what the document holds. -/
theorem resolveUrl_manifest (project : Project) :
    resolveUrl document.manifest project = document.cloneUrl project := by
  have hnamed : ∀ remote ∈ document.manifest.remotes, remote.name ≠ [] := by
    intro remote hremote
    obtain ⟨item, hitem, rfl⟩ := List.mem_map.mp hremote
    obtain ⟨manifestSection, hsection, hitem⟩ := List.mem_flatMap.mp hitem
    have hwritten := document.isWritten manifestSection hsection
    cases manifestSection with
    | defaults step fields => cases hitem
    | remotes step items => exact (hwritten item hitem).2
    | projects step items => cases hitem
  have hchosen : (if remoteName document.manifest project = [] then none
      else findRemote document.manifest
        (remoteName document.manifest project)) =
      document.chosenRemote project := by
    by_cases hown : project.remote = []
    · by_cases hdefault : document.manifest.defaultRemote = []
      · rcases hremotes : document.manifest.remotes with
          _ | ⟨remote, _ | ⟨next, more⟩⟩
        · simp [chosenRemote, remoteName, hown, hdefault, hremotes]
        · have hname := hnamed remote (by rw [hremotes]; simp)
          simp [chosenRemote, remoteName, hown, hdefault, hremotes, hname,
            findRemote]
        · simp [chosenRemote, remoteName, hown, hdefault, hremotes]
      · simp [chosenRemote, remoteName, hown, hdefault, findRemote]
    · simp [chosenRemote, remoteName, hown, findRemote]
  have hpath : (if project.repoPath = [] then project.name
      else project.repoPath) =
      if project.repoPath ≠ [] then project.repoPath else project.name := by
    by_cases hrepo : project.repoPath = [] <;> simp [hrepo]
  rw [resolveUrl, cloneUrl]
  dsimp only
  rw [hchosen, hpath]
  all_goals cases document.chosenRemote project <;> rfl

theorem resolveRevision_manifest (project : Project) :
    resolveRevision document.manifest project = document.revision project := by
  rw [resolveRevision, revision]
  by_cases hrevision : project.revision = [] <;> simp [hrevision]

end Document

/-! ## Aligned documents -/

theorem eq_of_length_flatMap {α β : Type*} {left right : α → List β}
    (hle : ∀ value, (left value).Sublist (right value)) {values : List α}
    (hlength : (values.flatMap left).length = (values.flatMap right).length) :
    ∀ value ∈ values, left value = right value := by
  have hflat : ∀ values : List α,
      (values.flatMap left).Sublist (values.flatMap right) := by
    intro values
    induction values with
    | nil => exact List.Sublist.refl []
    | cons value values ih => exact (hle value).append ih
  induction values with
  | nil => simp
  | cons value values ih =>
    have hrest := (hflat values).length_le
    have hfirst := (hle value).length_le
    simp only [List.flatMap_cons, List.length_append] at hlength
    rw [List.forall_mem_cons]
    exact ⟨(hle value).eq_of_length (by omega), ih (by omega)⟩

section Alignment

variable {column : Nat}

theorem readRemoteItems_sublist (manifestSection : Section) :
    (manifestSection.readRemoteItems column).Sublist
      manifestSection.remoteItems := by
  cases manifestSection with
  | defaults step fields => exact List.Sublist.refl []
  | remotes step items => exact readItems_sublist items
  | projects step items => exact List.Sublist.refl []

theorem readProjectItems_sublist (manifestSection : Section) :
    (manifestSection.readProjectItems column).Sublist
      manifestSection.projectItems := by
  cases manifestSection with
  | defaults step fields => exact List.Sublist.refl []
  | remotes step items => exact List.Sublist.refl []
  | projects step items => exact readItems_sublist items

/-- A section is aligned when all of its items are read. -/
theorem isAligned_iff {manifestSection : Section} :
    manifestSection.IsAligned column ↔
      manifestSection.readRemoteItems column = manifestSection.remoteItems ∧
        manifestSection.readProjectItems column =
          manifestSection.projectItems := by
  have hitems : ∀ (marker : Nat) (items : List Item),
      readItems marker none items = items ↔
        items.IsChain (Item.Follows marker) := by
    intro marker items
    rw [readItems_eq_iff]
    simp
  cases manifestSection with
  | defaults step fields =>
    simp [Section.IsAligned, Section.readRemoteItems, Section.remoteItems,
      Section.readProjectItems, Section.projectItems]
  | remotes step items =>
    simp [Section.IsAligned, Section.readRemoteItems, Section.remoteItems,
      Section.readProjectItems, Section.projectItems, hitems]
  | projects step items =>
    simp [Section.IsAligned, Section.readRemoteItems, Section.remoteItems,
      Section.readProjectItems, Section.projectItems, hitems]

end Alignment

/-- A manifest is read as what it holds, and its projects resolve by that,
exactly when the items behind blocks are aligned. -/
theorem Document.isRead_iff (document : Document) :
    document.IsRead ↔ document.IsAligned := by
  constructor
  · intro hread
    have hmanifest := hread.manifest
    rw [document.readManifest_text] at hmanifest
    have hremotes := congrArg (fun manifest => manifest.remotes.length) hmanifest
    have hprojects :=
      congrArg (fun manifest => manifest.projects.length) hmanifest
    simp only [Document.manifest, List.length_map] at hremotes hprojects
    intro manifestSection hsection
    exact isAligned_iff.mpr
      ⟨eq_of_length_flatMap readRemoteItems_sublist hremotes _ hsection,
        eq_of_length_flatMap readProjectItems_sublist hprojects _ hsection⟩
  · intro haligned
    have hremotes : document.sections.flatMap
        (Section.readRemoteItems document.sectionColumn) =
          document.sections.flatMap Section.remoteItems :=
      List.flatMap_congr fun manifestSection hsection =>
        (isAligned_iff.mp (haligned manifestSection hsection)).1
    have hprojects : document.sections.flatMap
        (Section.readProjectItems document.sectionColumn) =
          document.sections.flatMap Section.projectItems :=
      List.flatMap_congr fun manifestSection hsection =>
        (isAligned_iff.mp (haligned manifestSection hsection)).2
    have hmanifest : (readManifest document.text).1 = document.manifest := by
      rw [document.readManifest_text, hremotes, hprojects]
      rfl
    refine ⟨hmanifest, fun project _ => ?_, fun project _ => ?_⟩
    · rw [hmanifest, document.resolveUrl_manifest]
    · rw [hmanifest, document.resolveRevision_manifest]

/-- The second project is indented deeper than the block that ends the
first. -/
def unalignedSections : List Section :=
  [.projects 2
    [{ lone := false, gap := 0,
       fields :=
        [{ key := nameKey, value := .scalar 0 (.plain "hal".toList) },
          { key := importKey, value := .block [] }] },
      { lone := false, gap := 2,
        fields :=
          [{ key := nameKey, value := .scalar 0 (.plain "mbedtls".toList) }] }]]

def unalignedDocument : Document where
  column := 0
  step := 1
  sections := unalignedSections
  keys_nodup := by decide
  isWritten := by
    have hname : IsFieldKey nameKey :=
      isFieldKey_of_all (by decide) (by decide)
    have himport : IsFieldKey importKey :=
      isFieldKey_of_all (by decide) (by decide)
    have hplain : ∀ (text : List Char) (column : Nat), IsPlainScalar text →
        Field.IsWritten { key := nameKey, value := .scalar 0 (.plain text) }
          column := by
      intro text column htext
      refine ⟨hname, ?_, by simp, by simp⟩
      rintro gap value hvalue
      obtain ⟨-, rfl⟩ := FieldValue.scalar.inj hvalue
      exact htext
    intro manifestSection hsection
    obtain rfl := List.mem_singleton.mp hsection
    intro item hitem
    simp only [List.mem_cons, List.not_mem_nil, or_false] at hitem
    rcases hitem with rfl | rfl
    · refine ⟨by simp, by decide, ?_⟩
      simp only [List.mem_cons, List.not_mem_nil, or_false]
      rintro field (rfl | rfl)
      · exact hplain _ _ (isPlainScalar_of_forall (by decide) (by decide))
      · exact ⟨himport, by simp, by simp, by simp⟩
    · refine ⟨by simp, by decide, ?_⟩
      simp only [List.mem_cons, List.not_mem_nil, or_false]
      rintro field rfl
      exact hplain _ _ (isPlainScalar_of_forall (by decide) (by decide))

theorem not_isRead : ¬∀ document : Document, document.IsRead := by
  intro hread
  have hmanifest := (hread unalignedDocument).manifest
  have hlength := congrArg (fun manifest => manifest.projects.length) hmanifest
  exact absurd hlength (by decide +kernel)

end Bomwerk.Embedded.West
