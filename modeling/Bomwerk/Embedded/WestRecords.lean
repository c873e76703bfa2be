import Bomwerk.Embedded.WestNodes

/-!
# What is read of a section

An item behind a block that it is not aligned with is hidden; every other item
gives a record of its own fields.
-/

namespace Bomwerk.Embedded.West

open Bomwerk.Core Bomwerk.Core.YamlSubset Bomwerk.Support

/-! ## Kept nodes -/

/-- The node of a field without the block below it. -/
def Field.head (starts : Bool) (column : Nat) (field : Field) :
    List SequenceNode :=
  match field.value with
  | .scalar _ value => [sequenceNodeOf starts column field.key value.text]
  | .block _ => [sequenceNodeOf starts column field.key []]
  | .blockScalar _ _ _ => (skipLine starts column).node?.toList

/-- The open block behind some fields: a block scalar yields no node. -/
def openBehind (column : Nat) (opened : Option Nat) (fields : List Field) :
    Option Nat :=
  match (fields.filter fun field => !field.value.isBlockScalar).getLast? with
  | none => opened
  | some field => if field.value.isBlock then some column else none

theorem openBehind_cons (column : Nat) (opened : Option Nat) (field : Field)
    (fields : List Field) :
    openBehind column opened (field :: fields) =
      openBehind column (openBehind column opened [field]) fields := by
  simp only [openBehind]
  by_cases hscalar : field.value.isBlockScalar = true
  · simp [hscalar]
  · rw [Bool.not_eq_true] at hscalar
    rcases hlast : (fields.filter fun field =>
      !field.value.isBlockScalar).getLast? with _ | last <;>
      simp [hscalar, List.getLast?_cons, hlast]

section Kept

variable {field : Field} {column marker : Nat} {opened : Option Nat}

theorem keptNodes_cons_of_closed {node : SequenceNode}
    (hopened : ∀ column ∈ opened, node.indentation ≤ column)
    (nodes : List SequenceNode) :
    keptNodes opened (node :: nodes) =
        node :: keptNodes (if nodeOpens node then some node.indentation
          else none) nodes ∧
      openBlock opened (node :: nodes) =
        openBlock (if nodeOpens node then some node.indentation else none)
          nodes := by
  have hany : ¬opened.any (· < nodeIndentation node) = true := by
    intro hany
    obtain ⟨column, hcolumn, hlt⟩ := (Option.any_eq_true _ _).mp hany
    exact (hopened column hcolumn).not_gt (of_decide_eq_true hlt)
  have hstep : blockStep (fun _ => false) nodeIndentation nodeOpens opened
      node = if nodeOpens node then some node.indentation else none := by
    rw [blockStep, if_neg (by simp), if_neg hany]
    rfl
  constructor
  · rw [keptNodes, outsideBlocks, if_neg hany, hstep]
    rfl
  · rw [openBlock, List.foldl_cons, hstep]

theorem keptNodes_append (opened : Option Nat)
    (front back : List SequenceNode) :
    keptNodes opened (front ++ back) =
      keptNodes opened front ++ keptNodes (openBlock opened front) back :=
  outsideBlocks_append opened front back

theorem openBlock_append (opened : Option Nat)
    (front back : List SequenceNode) :
    openBlock opened (front ++ back) =
      openBlock (openBlock opened front) back :=
  List.foldl_append

/-- Of a field that no block hides its own node is kept. -/
theorem keptNodes_field (h : field.IsWritten column) (starts : Bool)
    (hopened : ∀ opening ∈ opened, column ≤ opening) :
    keptNodes opened (field.nodes starts column) = field.head starts column ∧
      openBlock opened (field.nodes starts column) =
        openBehind column (if starts then none else opened) [field] := by
  rcases hvalue : field.value with ⟨gap, value⟩ | ⟨nested⟩ |
    ⟨gap, header, body⟩
  · have hne := (Scalar.isSolid_text (h.scalar gap value hvalue)).ne_nil
    have hnode : nodeOpens (sequenceNodeOf starts column field.key
        value.text) = false := by
      simp [nodeOpens, sequenceNodeOf, hne]
    obtain ⟨hkept, hbehind⟩ := @keptNodes_cons_of_closed opened
      (sequenceNodeOf starts column field.key value.text) hopened []
    rw [hnode] at hkept hbehind
    simp only [Field.nodes, Field.head, hvalue]
    rw [hkept, hbehind]
    refine ⟨rfl, ?_⟩
    simp [openBehind, hvalue, FieldValue.isBlockScalar, FieldValue.isBlock,
      openBlock]
  · have hnode : nodeOpens (sequenceNodeOf starts column field.key []) =
        true := by
      simp [nodeOpens, sequenceNodeOf, h.key.spellable.ne_nil]
    obtain ⟨hkept, hbehind⟩ := @keptNodes_cons_of_closed opened
      (sequenceNodeOf starts column field.key []) hopened (lineNodes none nested)
    rw [hnode, if_pos rfl] at hkept hbehind
    obtain ⟨hdeeper, -⟩ := lineNodes_nested (h.block nested hvalue)
      (resumes_none column)
    obtain ⟨hnested, hstill⟩ := @outsideBlocks_of_deeper _ (fun _ => false)
      nodeIndentation nodeOpens column _ hdeeper
    simp only [Field.nodes, Field.head, hvalue]
    rw [hkept, hbehind]
    refine ⟨congrArg _ hnested, hstill.trans ?_⟩
    simp [openBehind, hvalue, FieldValue.isBlockScalar, FieldValue.isBlock]
  · simp only [Field.nodes, Field.head, hvalue]
    cases starts with
    | false =>
      refine ⟨rfl, ?_⟩
      simp [openBehind, hvalue, FieldValue.isBlockScalar, openBlock, skipLine]
    | true =>
      obtain ⟨hkept, hbehind⟩ := @keptNodes_cons_of_closed opened
        (itemNode column false []) hopened []
      refine ⟨hkept, hbehind.trans ?_⟩
      simp [openBehind, hvalue, FieldValue.isBlockScalar, openBlock,
        nodeOpens, itemNode]

theorem le_openBehind {fields : List Field}
    (hopened : ∀ opening ∈ opened, column ≤ opening) :
    ∀ opening ∈ openBehind column opened fields, column ≤ opening := by
  intro opening hopening
  rw [openBehind] at hopening
  split at hopening
  · exact hopened opening hopening
  · split_ifs at hopening
    · exact (Option.some.inj hopening).le
    · cases hopening

theorem keptNodes_fields {fields : List Field}
    (hfields : ∀ field ∈ fields, field.IsWritten column)
    (hopened : ∀ opening ∈ opened, column ≤ opening) :
    keptNodes opened (fields.flatMap (Field.nodes false column)) =
        fields.flatMap (Field.head false column) ∧
      openBlock opened (fields.flatMap (Field.nodes false column)) =
        openBehind column opened fields := by
  induction fields generalizing opened with
  | nil => exact ⟨rfl, rfl⟩
  | cons field fields ih =>
    rw [List.forall_mem_cons] at hfields
    obtain ⟨hkept, hbehind⟩ := keptNodes_field hfields.1 false hopened
    rw [if_neg (by simp)] at hbehind
    obtain ⟨hrest, hlast⟩ := ih hfields.2
      (@le_openBehind column opened [field] hopened)
    simp only [List.flatMap_cons]
    rw [keptNodes_append, openBlock_append, hkept, hbehind, hrest, hlast,
      ← openBehind_cons]
    exact ⟨rfl, rfl⟩

end Kept

/-! ## Items -/

namespace Item

variable (marker : Nat) (item : Item)

def startColumn : Nat := if item.lone then marker + 1 else item.column marker

/-- The nodes of an item that no block hides. -/
def kept : List SequenceNode :=
  if item.lone then
    itemNode (marker + 1) true [] ::
      item.fields.flatMap (Field.head false (item.column marker))
  else
    match item.fields with
    | [] => []
    | first :: fields =>
      first.head true (item.column marker) ++
        fields.flatMap (Field.head false (item.column marker))

end Item

/-- The items of a sequence that are read, behind an open block. -/
def readItems (marker : Nat) : Option Nat → List Item → List Item
  | _, [] => []
  | opened, item :: items =>
    if opened.any (· < item.startColumn marker) then
      readItems marker opened items
    else
      item :: readItems marker
        (if item.endsInBlock then some (item.column marker) else none) items

section Items

variable {item : Item} {marker : Nat} {opened : Option Nat}

theorem endsInBlock_eq (marker : Nat) (item : Item) :
    (if item.endsInBlock then some (item.column marker) else none) =
      openBehind (item.column marker) none item.fields := by
  rw [Item.endsInBlock, openBehind]
  rcases hlast : (item.fields.filter fun field =>
    !field.value.isBlockScalar).getLast? with _ | last <;> simp [hlast]

theorem le_indentation_field {field : Field} {column : Nat}
    (h : field.IsWritten column) (starts : Bool) :
    ∀ node ∈ field.nodes starts column, column ≤ node.indentation := by
  intro node hnode
  rcases hvalue : field.value with ⟨gap, value⟩ | ⟨nested⟩ |
    ⟨gap, header, body⟩
  · simp only [Field.nodes, hvalue, List.mem_singleton] at hnode
    rw [hnode]
    exact le_rfl
  · simp only [Field.nodes, hvalue, List.mem_cons] at hnode
    rcases hnode with rfl | hnode
    · exact le_rfl
    · exact ((lineNodes_nested (h.block nested hvalue)
        (resumes_none column)).1 node hnode).le
  · simp only [Field.nodes, hvalue] at hnode
    exact ((@isAt_skipLine starts column).1 node
      (Option.mem_toList.mp hnode)).ge

theorem startColumn_le (marker : Nat) (item : Item) :
    marker < item.startColumn marker ∧
      item.startColumn marker ≤ item.column marker := by
  rw [Item.startColumn, Item.column]
  split_ifs <;> omega

theorem le_indentation_item (h : item.IsWritten marker) :
    ∀ node ∈ item.nodes marker, item.startColumn marker ≤ node.indentation := by
  obtain ⟨-, hle⟩ := startColumn_le marker item
  intro node hnode
  have hfield : ∀ starts, ∀ field ∈ item.fields,
      node ∈ field.nodes starts (item.column marker) →
        item.startColumn marker ≤ node.indentation :=
    fun starts field hfield hnode => hle.trans
      (le_indentation_field (h.fields field hfield) starts node hnode)
  rw [Item.nodes] at hnode
  by_cases hlone : item.lone = true
  · rw [if_pos hlone] at hnode
    rcases List.mem_cons.mp hnode with rfl | hnode
    · rw [Item.startColumn, if_pos hlone]
      rfl
    · obtain ⟨field, hmem, hnode⟩ := List.mem_flatMap.mp hnode
      exact hfield false field hmem hnode
  · rw [if_neg hlone] at hnode
    rcases hfields : item.fields with _ | ⟨first, fields⟩
    · exact absurd hfields h.fields_ne_nil
    rw [hfields] at hnode hfield
    rcases List.mem_append.mp hnode with hnode | hnode
    · exact hfield true first List.mem_cons_self hnode
    · obtain ⟨field, hmem, hnode⟩ := List.mem_flatMap.mp hnode
      exact hfield false field (List.mem_cons_of_mem _ hmem) hnode

/-- An item that no block hides. -/
theorem keptNodes_item (h : item.IsWritten marker)
    (hopened : ∀ opening ∈ opened, item.startColumn marker ≤ opening) :
    keptNodes opened (item.nodes marker) = item.kept marker ∧
      openBlock opened (item.nodes marker) =
        if item.endsInBlock then some (item.column marker) else none := by
  have hnone : ∀ opening ∈ (none : Option Nat),
      item.column marker ≤ opening := resumes_none _
  rw [endsInBlock_eq, Item.nodes, Item.kept]
  by_cases hlone : item.lone = true
  · rw [Item.startColumn, if_pos hlone] at hopened
    obtain ⟨hfirst, hbehind⟩ := @keptNodes_cons_of_closed opened
      (itemNode (marker + 1) true []) hopened
      (item.fields.flatMap (Field.nodes false (item.column marker)))
    obtain ⟨hkept, hlast⟩ := keptNodes_fields h.fields hnone
    rw [if_neg (by simp [nodeOpens, itemNode])] at hfirst hbehind
    rw [if_pos hlone, if_pos hlone, hfirst, hbehind, hkept, hlast]
    exact ⟨rfl, rfl⟩
  · rw [Item.startColumn, if_neg hlone] at hopened
    rw [if_neg hlone, if_neg hlone]
    rcases hfields : item.fields with _ | ⟨first, fields⟩
    · exact absurd hfields h.fields_ne_nil
    have hwritten := h.fields
    rw [hfields, List.forall_mem_cons] at hwritten
    obtain ⟨hfirst, hbehind⟩ := keptNodes_field hwritten.1 true hopened
    rw [if_pos rfl] at hbehind
    obtain ⟨hkept, hlast⟩ := keptNodes_fields hwritten.2
      (@le_openBehind (item.column marker) none [first] hnone)
    dsimp only
    rw [keptNodes_append, openBlock_append, hfirst, hbehind, hkept, hlast,
      ← openBehind_cons]
    exact ⟨rfl, rfl⟩

/-- The nodes of a sequence that are kept are those of the items that are
read. -/
theorem keptNodes_items {items : List Item}
    (hitems : ∀ item ∈ items, item.IsWritten marker) :
    keptNodes opened (items.flatMap (Item.nodes marker)) =
      (readItems marker opened items).flatMap (Item.kept marker) := by
  induction items generalizing opened with
  | nil => rfl
  | cons item items ih =>
    rw [List.forall_mem_cons] at hitems
    rw [List.flatMap_cons, keptNodes_append, readItems]
    by_cases hhidden : opened.any (· < item.startColumn marker) = true
    · obtain ⟨column, rfl, hlt⟩ := (Option.any_eq_true _ _).mp hhidden
      have hlt : column < item.startColumn marker := of_decide_eq_true hlt
      have hdeeper : ∀ node ∈ item.nodes marker,
          column < nodeIndentation node := fun node hnode =>
        hlt.trans_le (le_indentation_item hitems.1 node hnode)
      obtain ⟨hnone, hstill⟩ := @outsideBlocks_of_deeper _ (fun _ => false)
        nodeIndentation nodeOpens column _ hdeeper
      have hkept : keptNodes (some column) (item.nodes marker) = [] := hnone
      have hopened : openBlock (some column) (item.nodes marker) =
          some column := hstill
      rw [if_pos hhidden, hkept, hopened, List.nil_append, ih hitems.2]
    · have hopened : ∀ opening ∈ opened, item.startColumn marker ≤ opening := by
        rintro opening rfl
        exact Nat.not_lt.mp fun hlt => hhidden (decide_eq_true hlt)
      obtain ⟨hkept, hbehind⟩ := keptNodes_item hitems.1 hopened
      rw [if_neg hhidden, hkept, hbehind, List.flatMap_cons, ih hitems.2]

theorem readItems_sublist (items : List Item) :
    (readItems marker opened items).Sublist items := by
  induction items generalizing opened with
  | nil => exact List.Sublist.refl []
  | cons item items ih =>
    rw [readItems]
    split
    · exact ih.cons item
    · exact ih.cons_cons item

theorem readItems_eq_iff {items : List Item} :
    readItems marker opened items = items ↔
      (∀ item ∈ items.head?, ∀ opening ∈ opened,
        item.startColumn marker ≤ opening) ∧
        items.IsChain (Item.Follows marker) := by
  induction items generalizing opened with
  | nil => simp [readItems]
  | cons item items ih =>
    rw [readItems]
    by_cases hhidden : opened.any (· < item.startColumn marker) = true
    · obtain ⟨column, rfl, hlt⟩ := (Option.any_eq_true _ _).mp hhidden
      have hlt : column < item.startColumn marker := of_decide_eq_true hlt
      rw [if_pos hhidden]
      constructor
      · intro heq
        have hlength := (@readItems_sublist marker (some column)
          items).length_le
        rw [heq, List.length_cons] at hlength
        omega
      · rintro ⟨hhead, -⟩
        exact absurd (hhead item rfl column rfl) hlt.not_ge
    · have hopened : ∀ opening ∈ opened, item.startColumn marker ≤ opening := by
        rintro opening rfl
        exact Nat.not_lt.mp fun hlt => hhidden (decide_eq_true hlt)
      rw [if_neg hhidden, List.cons.injEq, ih, List.isChain_cons]
      have hfollows : (∀ next ∈ items.head?, ∀ opening ∈
          (if item.endsInBlock then some (item.column marker) else none),
            next.startColumn marker ≤ opening) ↔
          ∀ next ∈ items.head?, Item.Follows marker item next := by
        refine forall₂_congr fun next hnext => ?_
        obtain ⟨hmarker, -⟩ := startColumn_le marker item
        obtain ⟨-, hcolumn⟩ := startColumn_le marker item
        by_cases hblock : item.endsInBlock = true
        · by_cases hlone : next.lone = true
          · have hstart : next.startColumn marker = marker + 1 := by
              rw [Item.startColumn, if_pos hlone]
            simp only [hblock, if_true, Option.mem_def, Option.some.injEq,
              forall_eq', Item.Follows, hlone, true_or, forall_const, iff_true]
            omega
          · have hstart : next.startColumn marker = next.column marker := by
              rw [Item.startColumn, if_neg hlone]
            simp [hblock, Item.Follows, hlone, hstart]
        · simp [hblock, Item.Follows]
      rw [hfollows]
      constructor
      · rintro ⟨-, hnext, hchain⟩
        refine ⟨?_, hnext, hchain⟩
        intro other hother
        obtain rfl := Option.some.inj hother
        exact hopened
      · rintro ⟨-, hnext, hchain⟩
        exact ⟨rfl, hnext, hchain⟩

end Items

end Bomwerk.Embedded.West

/-!
## The records of a manifest

The nodes of an item set the fields of its own record and of no other, so a
document whose items are aligned is read for what it holds.
-/

namespace Bomwerk.Embedded.West

open Bomwerk.Core Bomwerk.Core.YamlSubset

attribute [ext] Remote Project

/-! ## Setting fields -/

/-- The node of a field carries its key and its text. -/
theorem node_of_mem_head {field : Field} {column : Nat}
    (h : field.IsWritten column) {starts : Bool} {node : SequenceNode}
    (hnode : node ∈ field.head starts column) :
    node.startsSequenceItem = starts ∧
      ((field.value.isBlockScalar = false ∧ node.key = field.key ∧
        node.value = field.value.content ∧
          node.opensBlock = field.value.isBlock) ∨
        (field.value.isBlockScalar = true ∧ node.key = [] ∧
          node.value = [])) := by
  rcases hvalue : field.value with ⟨gap, value⟩ | ⟨nested⟩ |
    ⟨gap, header, body⟩
  · have hscalar := h.scalar gap value hvalue
    have hne := (Scalar.isSolid_text hscalar).ne_nil
    simp only [Field.head, hvalue, List.mem_singleton] at hnode
    subst hnode
    refine ⟨rfl, .inl ⟨rfl, rfl, ?_, ?_⟩⟩
    · exact Scalar.value_sequenceNodeOf hscalar starts column field.key
    · simp [sequenceNodeOf, FieldValue.isBlock, hne]
  · simp only [Field.head, hvalue, List.mem_singleton] at hnode
    subst hnode
    exact ⟨rfl, .inl ⟨rfl, rfl, rfl, rfl⟩⟩
  · simp only [Field.head, hvalue, Option.mem_toList, skipLine] at hnode
    cases starts with
    | false => cases hnode
    | true =>
      obtain rfl := Option.some.inj hnode
      exact ⟨rfl, .inr ⟨rfl, rfl, rfl⟩⟩

section Setters

variable {Rec Value : Type*} {set : SequenceNode → Rec → Rec}
  {get : Rec → Value} {key : List Char} {read : SequenceNode → Value}
  {content : Field → Value}
  (hkey : key ∈ readKeys)
  (hset : ∀ node record, node.key = key → get (set node record) = read node)
  (hother : ∀ node record, node.key ≠ key → get (set node record) = get record)
  (hcontent : ∀ (node : SequenceNode) (field : Field),
    node.value = field.value.content →
      node.opensBlock = field.value.isBlock → read node = content field)

include hkey hset hother hcontent

/-- The node of one field sets what is read of its key. -/
theorem get_foldl_head {field : Field} {column : Nat}
    (h : field.IsWritten column) (starts : Bool) (record : Rec) :
    get ((field.head starts column).foldl (fun record node => set node record)
        record) =
      if field.key = key then content field else get record := by
  have hnil : key ≠ [] := by
    rintro rfl
    exact absurd hkey (by decide)
  rcases hvalue : field.value.isBlockScalar with _ | _
  · obtain ⟨node, hhead⟩ : ∃ node, field.head starts column = [node] := by
      rcases hshape : field.value with ⟨gap, value⟩ | ⟨nested⟩ |
        ⟨gap, header, body⟩
      · exact ⟨_, by rw [Field.head, hshape]⟩
      · exact ⟨_, by rw [Field.head, hshape]⟩
      · rw [hshape] at hvalue
        cases hvalue
    have hnode := @node_of_mem_head field column h starts node
      (by rw [hhead]; exact List.mem_singleton_self node)
    obtain ⟨-, ⟨-, hk, hv, ho⟩ | ⟨hscalar, -⟩⟩ := hnode
    · rw [hhead, List.foldl_cons, List.foldl_nil]
      by_cases heq : field.key = key
      · rw [if_pos heq, hset node record (hk.trans heq),
          hcontent node field hv ho]
      · rw [if_neg heq, hother node record (by rwa [hk])]
    · rw [hvalue] at hscalar
      cases hscalar
  · have hunread : field.key ≠ key := by
      rintro rfl
      rcases hshape : field.value with ⟨gap, value⟩ | ⟨nested⟩ |
        ⟨gap, header, body⟩
      · rw [hshape] at hvalue
        cases hvalue
      · rw [hshape] at hvalue
        cases hvalue
      · exact (h.blockScalar _ _ _ hshape).2.1 hkey
    rw [if_neg hunread]
    rcases hhead : field.head starts column with _ | ⟨node, nodes⟩
    · rfl
    have hempty : nodes = [] ∧ node.key = [] := by
      rcases hshape : field.value with ⟨gap, value⟩ | ⟨nested⟩ |
        ⟨gap, header, body⟩
      · rw [hshape] at hvalue
        cases hvalue
      · rw [hshape] at hvalue
        cases hvalue
      · rw [Field.head, hshape] at hhead
        cases starts with
        | false => cases hhead
        | true =>
          obtain ⟨rfl, rfl⟩ := List.cons.inj hhead
          exact ⟨rfl, rfl⟩
    obtain ⟨rfl, hnode⟩ := hempty
    rw [List.foldl_cons, List.foldl_nil,
      hother node record (by rw [hnode]; exact hnil.symm)]

/-- The nodes of some fields set what the field of a key gives. -/
theorem get_foldl_heads {fields : List Field} {column : Nat}
    (hfields : ∀ field ∈ fields, field.IsWritten column)
    (hnodup : (fields.map Field.key).Nodup) (record : Rec) :
    get ((fields.flatMap (Field.head false column)).foldl
        (fun record node => set node record) record) =
      ((fields.find? fun field => field.key = key).map content).getD
        (get record) := by
  induction fields generalizing record with
  | nil => rfl
  | cons field fields ih =>
    rw [List.forall_mem_cons] at hfields
    rw [List.map_cons, List.nodup_cons] at hnodup
    rw [List.flatMap_cons, List.foldl_append, ih hfields.2 hnodup.2,
      get_foldl_head hkey hset hother hcontent hfields.1]
    by_cases heq : field.key = key
    · have hnone : (fields.find? fun field => field.key = key) = none := by
        rw [List.find?_eq_none]
        intro other hother
        rw [decide_eq_true_eq]
        rintro hsame
        exact hnodup.1 (List.mem_map.mpr
          ⟨other, hother, hsame.trans heq.symm⟩)
      rw [hnone, List.find?_cons_of_pos (by simpa using heq), if_pos heq]
      rfl
    · rw [List.find?_cons_of_neg (by simpa using heq), if_neg heq]

/-- The nodes of an item set what its field of a key gives. -/
theorem get_foldl_kept {item : Item} {marker : Nat}
    (h : item.IsWritten marker) (record : Rec) :
    get ((item.kept marker).foldl (fun record node => set node record)
        record) =
      ((item.fields.find? fun field => field.key = key).map content).getD
        (get record) := by
  have hnil : key ≠ [] := by
    rintro rfl
    exact absurd hkey (by decide)
  rw [Item.kept]
  by_cases hlone : item.lone = true
  · rw [if_pos hlone, List.foldl_cons,
      get_foldl_heads hkey hset hother hcontent h.fields h.keys_nodup,
      hother _ _ (by exact hnil.symm)]
  · rw [if_neg hlone]
    rcases hfields : item.fields with _ | ⟨first, fields⟩
    · exact absurd hfields h.fields_ne_nil
    have hwritten := h.fields
    have hnodup := h.keys_nodup
    rw [hfields] at hwritten hnodup
    have hall := get_foldl_heads hkey hset hother hcontent hwritten hnodup record
    rw [List.forall_mem_cons] at hwritten
    rw [List.map_cons, List.nodup_cons] at hnodup
    rw [List.flatMap_cons, List.foldl_append,
      get_foldl_heads hkey hset hother hcontent hwritten.2 hnodup.2,
      get_foldl_head hkey hset hother hcontent hwritten.1] at hall
    dsimp only
    rw [List.foldl_append,
      get_foldl_heads hkey hset hother hcontent hwritten.2 hnodup.2,
      get_foldl_head hkey hset hother hcontent hwritten.1, hall]

end Setters

/-! ## Records -/

/-- The branch of a key in `Project.setField`. -/
theorem setField_of_key {node : SequenceNode} (record : Project) :
    (node.key = nameKey → (Project.setField node record).name = node.value) ∧
    (node.key = urlKey → (Project.setField node record).url = node.value) ∧
    (node.key = remoteKey →
      (Project.setField node record).remote = node.value) ∧
    (node.key = repoPathKey →
      (Project.setField node record).repoPath = node.value) ∧
    (node.key = revisionKey →
      (Project.setField node record).revision = node.value) ∧
    (node.key = pathKey → (Project.setField node record).path = node.value) ∧
    (node.key = importKey → (Project.setField node record).imports =
      importValuePullsProjects node) := by
  have hdistinct : [nameKey, urlKey, remoteKey, repoPathKey, revisionKey,
      pathKey, importKey].Nodup := by decide
  simp only [List.nodup_cons, List.mem_cons, not_or, List.not_mem_nil,
    not_false_eq_true, and_true, List.nodup_nil] at hdistinct
  obtain ⟨⟨h1, h2, h3, h4, h5, h6⟩, ⟨h7, h8, h9, h10, h11⟩,
    ⟨h12, h13, h14, h15⟩, ⟨h16, h17, h18⟩, ⟨h19, h20⟩, h21⟩ := hdistinct
  refine ⟨?_, ?_, ?_, ?_, ?_, ?_, ?_⟩
  all_goals
    intro hkey
    simp [Project.setField, *, Ne.symm]

/-- The other branches keep what the record holds. -/
theorem setField_of_ne {node : SequenceNode} (record : Project) :
    (node.key ≠ nameKey → (Project.setField node record).name = record.name) ∧
    (node.key ≠ urlKey → (Project.setField node record).url = record.url) ∧
    (node.key ≠ remoteKey →
      (Project.setField node record).remote = record.remote) ∧
    (node.key ≠ repoPathKey →
      (Project.setField node record).repoPath = record.repoPath) ∧
    (node.key ≠ revisionKey →
      (Project.setField node record).revision = record.revision) ∧
    (node.key ≠ pathKey → (Project.setField node record).path = record.path) ∧
    (node.key ≠ importKey →
      (Project.setField node record).imports = record.imports) := by
  refine ⟨?_, ?_, ?_, ?_, ?_, ?_, ?_⟩
  all_goals
    intro hkey
    simp only [Project.setField, hkey, if_false]
    split_ifs <;> rfl

section Records

variable {item : Item} {marker : Nat} (h : item.IsWritten marker)

include h

/-- A text of the record of an item is that of the field with its key. -/
theorem text_foldl_kept {Rec : Type*} {set : SequenceNode → Rec → Rec}
    {get : Rec → List Char} {key : List Char} (hkey : key ∈ readKeys)
    (hset : ∀ node record, node.key = key → get (set node record) = node.value)
    (hother : ∀ node record, node.key ≠ key →
      get (set node record) = get record)
    {record : Rec} (hrecord : get record = []) :
    get ((item.kept marker).foldl (fun record node => set node record)
      record) = contentOf key item.fields := by
  have hcontent : ∀ (node : SequenceNode) (field : Field),
      node.value = field.value.content → node.opensBlock = field.value.isBlock →
          node.value = field.value.content := fun _ _ hvalue _ => hvalue
  rw [get_foldl_kept hkey hset hother hcontent h, hrecord]
  rfl

theorem foldl_setField_remote :
    (item.kept marker).foldl (fun record node => Remote.setField node record)
      {} = item.remote := by
  apply Remote.ext
  · apply text_foldl_kept h (by decide) _ _ rfl
    · intro node record hkey
      simp [Remote.setField, hkey]
    · intro node record hkey
      unfold Remote.setField
      split_ifs <;> first | contradiction | rfl
  · apply text_foldl_kept h (by decide) _ _ rfl
    · intro node record hkey
      have hname : urlBaseKey ≠ nameKey := by decide
      simp [Remote.setField, hkey, hname]
    · intro node record hkey
      unfold Remote.setField
      split_ifs <;> first | contradiction | rfl

theorem foldl_setField_project :
    (item.kept marker).foldl (fun record node => Project.setField node record)
      {} = item.project := by
  apply Project.ext
  · apply text_foldl_kept h (by decide) _ _ rfl
    · intro node record
      exact (setField_of_key record).1
    · intro node record
      exact (setField_of_ne record).1
  · apply text_foldl_kept h (by decide) _ _ rfl
    · intro node record
      exact (setField_of_key record).2.1
    · intro node record
      exact (setField_of_ne record).2.1
  · apply text_foldl_kept h (by decide) _ _ rfl
    · intro node record
      exact (setField_of_key record).2.2.1
    · intro node record
      exact (setField_of_ne record).2.2.1
  · apply text_foldl_kept h (by decide) _ _ rfl
    · intro node record
      exact (setField_of_key record).2.2.2.1
    · intro node record
      exact (setField_of_ne record).2.2.2.1
  · apply text_foldl_kept h (by decide) _ _ rfl
    · intro node record
      exact (setField_of_key record).2.2.2.2.1
    · intro node record
      exact (setField_of_ne record).2.2.2.2.1
  · apply text_foldl_kept h (by decide) _ _ rfl
    · intro node record
      exact (setField_of_key record).2.2.2.2.2.1
    · intro node record
      exact (setField_of_ne record).2.2.2.2.2.1
  · have himports := @get_foldl_kept Project Bool Project.setField
      Project.imports importKey importValuePullsProjects Field.pullsProjects
      (by decide) (fun node record => (setField_of_key record).2.2.2.2.2.2)
      (fun node record => (setField_of_ne record).2.2.2.2.2.2)
      (by
        intro node field hvalue hopens
        rw [importValuePullsProjects, Field.pullsProjects, hvalue, hopens])
      item marker h {}
    rw [himports, Item.project]
    cases item.fields.find? fun field => field.key = importKey with
    | none => rfl
    | some field => rfl

end Records

/-- The first node of an item starts it, and none is a bare scalar. -/
theorem exists_kept_cons {item : Item} {marker : Nat}
    (h : item.IsWritten marker) :
    ∃ first nodes, item.kept marker = first :: nodes ∧
      first.startsSequenceItem = true ∧
        (∀ node ∈ nodes, node.startsSequenceItem = false) ∧
          ∀ node ∈ first :: nodes, isBareScalar node = false := by
  have hhead : ∀ {starts : Bool} {field : Field}, field ∈ item.fields →
      ∀ node ∈ field.head starts (item.column marker),
        node.startsSequenceItem = starts ∧ isBareScalar node = false := by
    intro starts field hfield node hnode
    have hwritten := h.fields field hfield
    obtain ⟨hstarts, hshape⟩ := node_of_mem_head hwritten hnode
    refine ⟨hstarts, ?_⟩
    rcases hshape with ⟨-, hkey, -⟩ | ⟨-, -, hvalue⟩
    · simp [isBareScalar, hkey, hwritten.key.spellable.ne_nil]
    · simp [isBareScalar, hvalue]
  rw [Item.kept]
  by_cases hlone : item.lone = true
  · refine ⟨_, _, if_pos hlone, rfl, ?_, ?_⟩
    · intro node hnode
      obtain ⟨field, hfield, hnode⟩ := List.mem_flatMap.mp hnode
      exact (hhead hfield node hnode).1
    · intro node hnode
      rcases List.mem_cons.mp hnode with rfl | hnode
      · rfl
      · obtain ⟨field, hfield, hnode⟩ := List.mem_flatMap.mp hnode
        exact (hhead hfield node hnode).2
  · rw [if_neg hlone]
    rcases hfields : item.fields with _ | ⟨field, fields⟩
    · exact absurd hfields h.fields_ne_nil
    rw [hfields] at hhead
    obtain ⟨first, hfirst⟩ : ∃ first,
        field.head true (item.column marker) = [first] := by
      rw [Field.head]
      cases field.value <;> exact ⟨_, rfl⟩
    have hmem : first ∈ field.head true (item.column marker) := by
      rw [hfirst]
      exact List.mem_singleton_self first
    obtain ⟨hstarts, hbare⟩ := hhead List.mem_cons_self first hmem
    dsimp only
    refine ⟨first, _, by rw [hfirst]; rfl, hstarts, ?_, ?_⟩
    · intro node hnode
      obtain ⟨field, hfield, hnode⟩ := List.mem_flatMap.mp hnode
      exact (hhead (List.mem_cons_of_mem _ hfield) node hnode).1
    · intro node hnode
      rcases List.mem_cons.mp hnode with rfl | hnode
      · exact hbare
      · obtain ⟨field, hfield, hnode⟩ := List.mem_flatMap.mp hnode
        exact (hhead (List.mem_cons_of_mem _ hfield) node hnode).2

end Bomwerk.Embedded.West
