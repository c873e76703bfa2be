import Bomwerk.Core.AsciiCase
import Bomwerk.Support.Knowledge
import Bomwerk.Support.OrderedMap

/-!
# Variable tables

The tables of `core/build_variables.cpp`: recording a definition, marking a
name ambiguous and merging one table into another.  A table says of each key
nothing, one value, or that the key is ambiguous, and every operation joins
what it is told to what the table says.
-/

namespace Bomwerk.Core

open Bomwerk.Support

structure VariableDialect where
  openBracket : Char
  closeBracket : Char
  caseInsensitiveNames : Bool
  deriving DecidableEq

def cmakeVariableDialect : VariableDialect where
  openBracket := '\x7b'
  closeBracket := '\x7d'
  caseInsensitiveNames := false

def msbuildVariableDialect : VariableDialect where
  openBracket := '('
  closeBracket := ')'
  caseInsensitiveNames := true

/-- An entry that holds nothing is ambiguous. -/
abbrev VariableTable := OrderedMap String (Option String)

def tableKey (dialect : VariableDialect) (name : String) : String :=
  if dialect.caseInsensitiveNames then toLowerAscii name else name

def recordVariableDefinition (table : VariableTable)
    (dialect : VariableDialect) (name value : String) : VariableTable :=
  let key := tableKey dialect name
  if value = "" then table.insert key none
  else
    match table[key]? with
    | none => table.insert key (some value)
    | some (some held) =>
      if held ≠ value then table.insert key none else table
    | some none => table

def markVariableAmbiguous (table : VariableTable) (dialect : VariableDialect)
    (name : String) : VariableTable :=
  table.insert (tableKey dialect name) none

def mergeVariableTables (destination : VariableTable)
    (dialect : VariableDialect) (source : VariableTable) : VariableTable :=
  source.toList.foldl
    (fun destination (name, value) =>
      match value with
      | some value => recordVariableDefinition destination dialect name value
      | none => markVariableAmbiguous destination dialect name)
    destination

/-- The value that `expand_variables` puts in the place of a name. -/
def definedValue? (table : VariableTable) (dialect : VariableDialect)
    (name : String) : Option String :=
  table[tableKey dialect name]?.join

theorem toLowerAsciiChar_of_lower (c : Char) :
    toLowerAsciiChar (toLowerAsciiChar c) = toLowerAsciiChar c := by
  by_cases hupper : 'A' ≤ c ∧ c ≤ 'Z'
  · exact forall_upper (P := fun c =>
      toLowerAsciiChar (toLowerAsciiChar c) = toLowerAsciiChar c)
      (by decide +kernel) hupper
  · rw [toLowerAsciiChar_of_not_upper hupper,
      toLowerAsciiChar_of_not_upper hupper]

theorem toLowerAscii_toLowerAscii (text : String) :
    toLowerAscii (toLowerAscii text) = toLowerAscii text := by
  rw [← String.toList_inj, toList_toLowerAscii, toList_toLowerAscii,
    List.map_map]
  congr 1
  funext c
  exact toLowerAsciiChar_of_lower c

@[simp] theorem tableKey_tableKey (dialect : VariableDialect) (name : String) :
    tableKey dialect (tableKey dialect name) = tableKey dialect name := by
  unfold tableKey
  split_ifs
  · exact toLowerAscii_toLowerAscii name
  · rfl

/-- What an entry of a table says of its key. -/
def entryKnowledge : Option (Option String) → Knowledge String
  | none => .unknown
  | some none => .conflicting
  | some (some value) => .known value

theorem entryKnowledge_injective : Function.Injective entryKnowledge := by
  rintro (_ | _ | left) (_ | _ | right) h
  all_goals simp_all [entryKnowledge]

def heldBy (table : VariableTable) : String → Knowledge String :=
  fun key => entryKnowledge table[key]?

theorem heldBy_injective : Function.Injective heldBy := by
  intro left right h
  apply Std.ExtTreeMap.ext_getElem?
  intro key
  exact entryKnowledge_injective (congrFun h key)

/-- A single entry, and nothing of any other key. -/
def saidOf (key : String) (entry : Option String) :
    String → Knowledge String :=
  fun other => if other = key then entryKnowledge (some entry) else ⊥

/-- What recording a value says of its key: an empty value is as good as two. -/
def recordedEntry (value : String) : Option String :=
  if value = "" then none else some value

theorem heldBy_markVariableAmbiguous (table : VariableTable)
    (dialect : VariableDialect) (name : String) :
    heldBy (markVariableAmbiguous table dialect name) =
      heldBy table ⊔ saidOf (tableKey dialect name) none := by
  funext key
  rw [Pi.sup_apply, heldBy, heldBy, markVariableAmbiguous, getElem?_insert_eq,
    saidOf]
  split_ifs with hkey
  · rw [sup_comm]
    exact (Knowledge.conflicting_sup _).symm
  · rw [sup_bot_eq]

theorem heldBy_recordVariableDefinition (table : VariableTable)
    (dialect : VariableDialect) (name value : String) :
    heldBy (recordVariableDefinition table dialect name value) =
      heldBy table ⊔ saidOf (tableKey dialect name) (recordedEntry value) := by
  by_cases hempty : value = ""
  · have hmark : recordVariableDefinition table dialect name value =
        markVariableAmbiguous table dialect name := if_pos hempty
    rw [hmark, heldBy_markVariableAmbiguous, recordedEntry, if_pos hempty]
  funext key
  rw [Pi.sup_apply, heldBy, heldBy, saidOf, recordedEntry, if_neg hempty,
    recordVariableDefinition, if_neg hempty]
  split
  case h_1 hheld =>
    rw [getElem?_insert_eq]
    split_ifs with hkey
    · rw [hkey, hheld]
      rfl
    · rw [sup_bot_eq]
  case h_2 held hheld =>
    by_cases hkey : key = tableKey dialect name
    · rw [if_pos hkey, hkey, hheld]
      change _ = Knowledge.known held ⊔ Knowledge.known value
      rw [Knowledge.known_sup_known]
      by_cases hsame : held = value
      · rw [if_neg (not_not.mpr hsame), if_pos hsame, hheld]
        rfl
      · rw [if_pos hsame, if_neg hsame, getElem?_insert_eq, if_pos rfl]
        rfl
    · rw [if_neg hkey, sup_bot_eq]
      split_ifs
      · rw [getElem?_insert_eq, if_neg hkey]
      · rfl
  case h_3 hheld =>
    split_ifs with hkey
    · rw [hkey, hheld]
      exact (Knowledge.conflicting_sup _).symm
    · rw [sup_bot_eq]

/-! ## Tables that were recorded -/

/-- The tables that recording in a dialect gives: their keys are folded, and
no value is empty. -/
structure IsRecorded (dialect : VariableDialect) (table : VariableTable) :
    Prop where
  keys_folded : ∀ (key : String) (entry : Option String), table[key]? = some entry →
    tableKey dialect key = key
  values_nonempty : ∀ key : String, table[key]? ≠ some (some "")

theorem isRecorded_empty (dialect : VariableDialect) :
    IsRecorded dialect ∅ where
  keys_folded := by simp
  values_nonempty := by simp

theorem IsRecorded.insert {dialect : VariableDialect} {table : VariableTable}
    (htable : IsRecorded dialect table) (name : String)
    {entry : Option String} (hentry : entry ≠ some "") :
    IsRecorded dialect (table.insert (tableKey dialect name) entry) where
  keys_folded := by
    intro key held hheld
    rw [getElem?_insert_eq] at hheld
    split_ifs at hheld with hkey
    · rw [hkey, tableKey_tableKey]
    · exact htable.keys_folded key held hheld
  values_nonempty := by
    intro key
    rw [getElem?_insert_eq]
    split_ifs
    · simpa using hentry
    · exact htable.values_nonempty key

theorem IsRecorded.markVariableAmbiguous {dialect : VariableDialect}
    {table : VariableTable} (htable : IsRecorded dialect table)
    (name : String) :
    IsRecorded dialect (markVariableAmbiguous table dialect name) :=
  htable.insert name (by simp)

theorem IsRecorded.recordVariableDefinition {dialect : VariableDialect}
    {table : VariableTable} (htable : IsRecorded dialect table)
    (name value : String) :
    IsRecorded dialect
      (recordVariableDefinition table dialect name value) := by
  simp only [Core.recordVariableDefinition]
  split_ifs with hempty
  · exact htable.insert name (by simp)
  · split
    · exact htable.insert name (by simpa using hempty)
    · split_ifs
      · exact htable.insert name (by simp)
      · exact htable
    · exact htable

theorem IsRecorded.mergeVariableTables {dialect : VariableDialect}
    {destination : VariableTable} (hdestination : IsRecorded dialect destination)
    (source : VariableTable) :
    IsRecorded dialect (mergeVariableTables destination dialect source) := by
  unfold Core.mergeVariableTables
  induction source.toList generalizing destination with
  | nil => exact hdestination
  | cons entry entries ih =>
    rw [List.foldl_cons]
    apply ih
    obtain ⟨name, _ | value⟩ := entry
    · exact hdestination.markVariableAmbiguous name
    · exact hdestination.recordVariableDefinition name value

/-- The entries of a table say together what the table says. -/
theorem joinOf_toList (table : VariableTable) :
    joinOf (fun entry : String × Option String => saidOf entry.1 entry.2)
      table.toList = heldBy table := by
  apply le_antisymm
  · rw [joinOf_le_iff]
    rintro ⟨key, entry⟩ hentry other
    change saidOf key entry other ≤ heldBy table other
    rw [mem_toList_iff] at hentry
    unfold saidOf heldBy
    split_ifs with hother
    · rw [hother, hentry]
    · exact bot_le
  · intro key
    rw [heldBy]
    cases hentry : table[key]? with
    | none => exact bot_le
    | some entry =>
      let said := fun entry : String × Option String =>
        saidOf entry.1 entry.2
      have hsaid : said (key, entry) ≤ joinOf said table.toList :=
        le_joinOf (mem_toList_iff.mpr hentry)
      simpa [said, saidOf] using hsaid key

theorem heldBy_mergeVariableTables {dialect : VariableDialect}
    (destination : VariableTable) {source : VariableTable}
    (hsource : IsRecorded dialect source) :
    heldBy (mergeVariableTables destination dialect source) =
      heldBy destination ⊔ heldBy source := by
  rw [mergeVariableTables, @held_foldl _ _ _ _ _ heldBy _
    (fun entry : String × Option String => saidOf entry.1 entry.2),
    joinOf_toList]
  rintro state ⟨name, entry⟩ hentry
  rw [mem_toList_iff] at hentry
  have hfolded := hsource.keys_folded name entry hentry
  cases entry with
  | none =>
    change heldBy (markVariableAmbiguous state dialect name) = _
    rw [heldBy_markVariableAmbiguous, hfolded]
  | some value =>
    have hvalue : value ≠ "" := by
      rintro rfl
      exact hsource.values_nonempty name hentry
    change heldBy (recordVariableDefinition state dialect name value) = _
    rw [heldBy_recordVariableDefinition, hfolded, recordedEntry, if_neg hvalue]

/-! ## Tables built from definitions -/

/-- What a build file says of a name. -/
inductive VariableDefinition
  | value (name value : String)
  | ambiguous (name : String)
  deriving DecidableEq

/-- A way of building a table: definitions recorded one by one, and tables
merged into one another. -/
inductive TableBuild
  | empty
  | define (build : TableBuild) (definition : VariableDefinition)
  | merge (destination source : TableBuild)

namespace TableBuild

/-- The definitions that went into the table, in any of its parts. -/
def definitions : TableBuild → List VariableDefinition
  | empty => []
  | define build definition => definition :: build.definitions
  | merge destination source => destination.definitions ++ source.definitions

def table (dialect : VariableDialect) : TableBuild → VariableTable
  | empty => ∅
  | define build (.value name value) =>
    recordVariableDefinition (build.table dialect) dialect name value
  | define build (.ambiguous name) =>
    markVariableAmbiguous (build.table dialect) dialect name
  | merge destination source =>
    mergeVariableTables (destination.table dialect) dialect
      (source.table dialect)

end TableBuild

/-- What one definition says of every key. -/
def saidByDefinition (dialect : VariableDialect) :
    VariableDefinition → String → Knowledge String
  | .value name value => saidOf (tableKey dialect name) (recordedEntry value)
  | .ambiguous name => saidOf (tableKey dialect name) none

theorem isRecorded_table (dialect : VariableDialect) (build : TableBuild) :
    IsRecorded dialect (build.table dialect) := by
  induction build with
  | empty => exact isRecorded_empty dialect
  | define build definition ih =>
    cases definition with
    | value name value => exact ih.recordVariableDefinition name value
    | ambiguous name => exact ih.markVariableAmbiguous name
  | merge destination source hdestination hsource =>
    exact hdestination.mergeVariableTables (source.table dialect)

theorem heldBy_table (dialect : VariableDialect) (build : TableBuild) :
    heldBy (build.table dialect) =
      joinOf (saidByDefinition dialect) build.definitions := by
  induction build with
  | empty => rfl
  | define build definition ih =>
    rw [TableBuild.definitions, joinOf_cons, ← ih, sup_comm]
    cases definition with
    | value name value =>
      exact heldBy_recordVariableDefinition _ dialect name value
    | ambiguous name => exact heldBy_markVariableAmbiguous _ dialect name
  | merge destination source hdestination hsource =>
    rw [TableBuild.definitions, joinOf_append, ← hdestination, ← hsource]
    exact heldBy_mergeVariableTables _ (isRecorded_table dialect source)

theorem table_congr (dialect : VariableDialect) {left right : TableBuild}
    (hsame : ∀ definition,
      definition ∈ left.definitions ↔ definition ∈ right.definitions) :
    left.table dialect = right.table dialect := by
  apply heldBy_injective
  rw [heldBy_table, heldBy_table]
  apply le_antisymm
  · exact joinOf_mono fun definition => (hsame definition).mp
  · exact joinOf_mono fun definition => (hsame definition).mpr

theorem merge_table_self (dialect : VariableDialect) (build : TableBuild) :
    mergeVariableTables (build.table dialect) dialect (build.table dialect) =
      build.table dialect := by
  apply heldBy_injective
  rw [heldBy_mergeVariableTables _ (isRecorded_table dialect build), sup_idem]

theorem getElem?_table_of_conflicting {dialect : VariableDialect}
    {build : TableBuild} {key : String}
    (h : joinOf (saidByDefinition dialect) build.definitions key =
      .conflicting) : (build.table dialect)[key]? = some none := by
  rw [← heldBy_table] at h
  exact entryKnowledge_injective h

/-- Two values for one key make it ambiguous, whatever else is defined. -/
theorem getElem?_table_of_two_values {dialect : VariableDialect}
    {build : TableBuild} {name other value value' : String}
    (hkey : tableKey dialect name = tableKey dialect other)
    (hne : value ≠ value') (hname : .value name value ∈ build.definitions)
    (hother : .value other value' ∈ build.definitions) :
    (build.table dialect)[tableKey dialect name]? = some none := by
  apply getElem?_table_of_conflicting
  have hfirst := @le_joinOf _ _ _ _ (saidByDefinition dialect) _ _ hname
    (tableKey dialect name)
  have hsecond := @le_joinOf _ _ _ _ (saidByDefinition dialect) _ _ hother
    (tableKey dialect name)
  simp only [saidByDefinition, saidOf, hkey, if_true, recordedEntry]
    at hfirst hsecond ⊢
  by_cases hvalue : value = ""
  · rw [if_pos hvalue] at hfirst
    exact Knowledge.eq_conflicting_of_le hfirst
  by_cases hvalue' : value' = ""
  · rw [if_pos hvalue'] at hsecond
    exact Knowledge.eq_conflicting_of_le hsecond
  · rw [if_neg hvalue] at hfirst
    rw [if_neg hvalue'] at hsecond
    exact Knowledge.eq_conflicting_of_known_le hne hfirst hsecond

/-- Definitions of the same values under spellings with one key. -/
def SameUpToSpelling (dialect : VariableDialect) :
    VariableDefinition → VariableDefinition → Prop
  | .value name value, .value other value' =>
    tableKey dialect name = tableKey dialect other ∧ value = value'
  | .ambiguous name, .ambiguous other =>
    tableKey dialect name = tableKey dialect other
  | _, _ => False

theorem saidByDefinition_congr {dialect : VariableDialect}
    {left right : VariableDefinition}
    (hsame : SameUpToSpelling dialect left right) :
    saidByDefinition dialect left = saidByDefinition dialect right := by
  cases left <;> cases right <;> simp_all [SameUpToSpelling, saidByDefinition]

theorem table_respelled {dialect : VariableDialect} {left right : TableBuild}
    (hsame : List.Forall₂ (SameUpToSpelling dialect) left.definitions
      right.definitions) :
    left.table dialect = right.table dialect := by
  apply heldBy_injective
  rw [heldBy_table, heldBy_table]
  generalize left.definitions = definitions at hsame ⊢
  generalize right.definitions = respelled at hsame ⊢
  induction hsame with
  | nil => rfl
  | cons hhead _ ih =>
    rw [joinOf_cons, joinOf_cons, saidByDefinition_congr hhead, ih]

theorem tableKey_of_caseInsensitive {dialect : VariableDialect}
    (hcase : dialect.caseInsensitiveNames = true) (name : String) :
    tableKey dialect name = toLowerAscii name :=
  if_pos hcase

/-- Variable tables form a join semilattice: the definitions decide the table,
a merge with itself changes nothing, a name with two values is ambiguous from
then on, and under a dialect that ignores letter case neither the spelling of a
definition nor that of a lookup matters. -/
theorem variableTables_joinSemilattice (dialect : VariableDialect) :
    (∀ left right : TableBuild, left.definitions.Perm right.definitions →
      left.table dialect = right.table dialect) ∧
    (∀ build : TableBuild,
      mergeVariableTables (build.table dialect) dialect (build.table dialect) =
        build.table dialect) ∧
    (∀ (build later : TableBuild) (name other value value' : String),
      tableKey dialect name = tableKey dialect other → value ≠ value' →
      .value name value ∈ build.definitions →
      .value other value' ∈ build.definitions →
      build.definitions ⊆ later.definitions →
      (build.table dialect)[tableKey dialect name]? = some none ∧
        (later.table dialect)[tableKey dialect name]? = some none) ∧
    (dialect.caseInsensitiveNames = true →
      (∀ left right : TableBuild,
        List.Forall₂ (SameUpToSpelling dialect) left.definitions
          right.definitions →
        left.table dialect = right.table dialect) ∧
      ∀ (build : TableBuild) (name other : String),
        toLowerAscii name = toLowerAscii other →
        definedValue? (build.table dialect) dialect name =
          definedValue? (build.table dialect) dialect other) := by
  refine ⟨?_, merge_table_self dialect, ?_, ?_⟩
  · intro left right hperm
    exact table_congr dialect fun definition => hperm.mem_iff
  · intro build later name other value value' hkey hne hname hother hlater
    exact ⟨getElem?_table_of_two_values hkey hne hname hother,
      getElem?_table_of_two_values hkey hne (hlater hname) (hlater hother)⟩
  · intro hcase
    refine ⟨fun left right => table_respelled, ?_⟩
    intro build name other hlower
    rw [definedValue?, definedValue?, tableKey_of_caseInsensitive hcase,
      tableKey_of_caseInsensitive hcase, hlower]

end Bomwerk.Core
