import Mathlib.Algebra.BigOperators.Group.List.Lemmas
import Mathlib.Algebra.GroupWithZero.Nat
import Mathlib.Data.Prod.Lex
import Bomwerk.Core.Warning
import Bomwerk.Output.Cyclonedx

/-!
# The warnings report

`output/warnings_report.cpp`: warnings grouped by the id of their code and
their ecosystem, each group with its smallest message, its number of
occurrences and the files it is about.  What a group says is described by the
warnings of its key, as far as their order does not matter.
-/

namespace Bomwerk.Output

open Bomwerk.Core Bomwerk.Support
open Std (ExtTreeMap ExtTreeSet LawfulEqOrd)

/-! ## Groups -/

/-- `WarningGroupKey`, as its `operator<` sees it: the id of a code, then an
ecosystem. -/
abbrev WarningGroupKey := String ×ₗ String

instance : LawfulEqOrd WarningGroupKey where
  compare_self := compare_eq_iff_eq.mpr rfl
  eq_of_compare h := compare_eq_iff_eq.mp h

def WarningGroupKey.codeId (key : WarningGroupKey) : String :=
  (ofLex key).1

def WarningGroupKey.ecosystem (key : WarningGroupKey) : String :=
  (ofLex key).2

def warningGroupKey (warning : Warning) : WarningGroupKey :=
  toLex ((codeInfoOf warning).id, warning.ecosystem)

/-- `WarningGroup`, of one warning at least. -/
structure WarningGroup where
  messages : List String
  affectedPaths : OrderedSet String
  occurrenceCount : Nat
  messages_ne_nil : messages ≠ []

/-- The turn of the grouping loop for a warning whose group was `group`. -/
def addOccurrence (warning : Warning) (group : Option WarningGroup) :
    WarningGroup where
  messages := (group.elim [] WarningGroup.messages) ++ [warning.message]
  affectedPaths :=
    let paths := group.elim ∅ WarningGroup.affectedPaths
    if warning.affectedPath ≠ "" then paths.insert warning.affectedPath
    else paths
  occurrenceCount := group.elim 0 WarningGroup.occurrenceCount + 1
  messages_ne_nil := by simp

/-- `groups`. -/
def groupWarnings (warnings : List Warning) :
    OrderedMap WarningGroupKey WarningGroup :=
  warnings.foldl
    (fun groups warning =>
      updateAt groups (warningGroupKey warning) (addOccurrence warning)) ∅

/-- A group, or none yet, says what the warnings of its key do. -/
structure Gathers (group : Option WarningGroup)
    (occurrences : List Warning) : Prop where
  messages : group.elim [] WarningGroup.messages =
    occurrences.map Warning.message
  occurrenceCount : group.elim 0 WarningGroup.occurrenceCount =
    occurrences.length
  mem_affectedPaths : ∀ path, path ∈ group.elim ∅ WarningGroup.affectedPaths ↔
      ∃ warning ∈ occurrences, warning.affectedPath = path ∧ path ≠ ""

theorem gathers_none : Gathers none [] where
  messages := rfl
  occurrenceCount := rfl
  mem_affectedPaths := by simp

theorem Gathers.add {group : Option WarningGroup}
    {occurrences : List Warning} (hgathers : Gathers group occurrences)
    (warning : Warning) :
    Gathers (some (addOccurrence warning group))
      (occurrences ++ [warning]) where
  messages := by
    simp [addOccurrence, hgathers.messages]
  occurrenceCount := by
    simp [addOccurrence, hgathers.occurrenceCount]
  mem_affectedPaths path := by
    have hbefore := hgathers.mem_affectedPaths path
    simp only [Option.elim_some, addOccurrence]
    split_ifs with hpath
    · simp only [ExtTreeSet.mem_insert, compare_eq_iff_eq, hbefore,
        List.mem_append, List.mem_singleton]
      constructor
      · rintro (rfl | ⟨other, hother, hof⟩)
        · exact ⟨warning, Or.inr rfl, rfl, hpath⟩
        · exact ⟨other, Or.inl hother, hof⟩
      · rintro ⟨other, hother | rfl, hof⟩
        · exact Or.inr ⟨other, hother, hof⟩
        · exact Or.inl hof.1
    · rw [hbefore]
      constructor
      · rintro ⟨other, hother, hof⟩
        exact ⟨other, List.mem_append_left _ hother, hof⟩
      · rintro ⟨other, hother, hof⟩
        rcases List.mem_append.mp hother with hother | hother
        · exact ⟨other, hother, hof⟩
        · rw [List.mem_singleton] at hother
          subst hother
          exact absurd (hof.1.trans_ne hof.2) hpath

theorem Gathers.foldl {group : Option WarningGroup}
    {occurrences : List Warning} (hgathers : Gathers group occurrences)
    (warnings : List Warning) :
    Gathers
      (warnings.foldl
        (fun group warning => some (addOccurrence warning group)) group)
      (occurrences ++ warnings) := by
  induction warnings generalizing group occurrences with
  | nil => simpa using hgathers
  | cons warning warnings ih =>
    have hstep := ih (hgathers.add warning)
    simpa using hstep

/-- The warnings of a key, in the order they came. -/
def occurrencesOf (key : WarningGroupKey) (warnings : List Warning) :
    List Warning :=
  warnings.filter (warningGroupKey · = key)

theorem gathers_groupWarnings (warnings : List Warning)
    (key : WarningGroupKey) :
    Gathers (groupWarnings warnings)[key]? (occurrencesOf key warnings) := by
  rw [groupWarnings, foldl_updateAt_filter]
  exact gathers_none.foldl (occurrencesOf key warnings)

theorem Gathers.isSome_iff {group : Option WarningGroup}
    {occurrences : List Warning} (hgathers : Gathers group occurrences) :
    group.isSome ↔ occurrences ≠ [] := by
  have hmessages := hgathers.messages
  cases group with
  | none => simpa using hmessages.symm
  | some group =>
    have hne := group.messages_ne_nil
    simp only [Option.elim_some] at hmessages
    simpa [hmessages] using hne

def groupToJson (key : WarningGroupKey) (group : WarningGroup)
    (suppressed : Bool) : Json :=
  Json.null
    |>.set "code" (.string key.codeId)
    |>.setIf (key.ecosystem ≠ "") "ecosystem" (.string key.ecosystem)
    |>.set "message" (.string (group.messages.min group.messages_ne_nil))
    |>.set "count" (.integer group.occurrenceCount)
    |>.set "suppressed" (.boolean suppressed)
    |>.setIf (!group.affectedPaths.isEmpty) "affected_paths"
        (.array (group.affectedPaths.toList.map Json.string))

/-- `document["product"]`. -/
def reportedProduct (releaseMeta : ReleaseMeta) : Json :=
  Json.null
    |>.set "id" (.string releaseMeta.productId)
    |>.setIf (releaseMeta.version ≠ "") "version" (.string releaseMeta.version)

def warningsJson (warnings : List Warning)
    (suppressedCodes : OrderedSet String) : List Json :=
  (groupWarnings warnings).toList.map fun entry =>
    groupToJson entry.1 entry.2
      (isCodeSuppressed entry.1.codeId entry.1.ecosystem suppressedCodes)

/-- `write_warnings_report`, as the document it dumps, at a time. -/
def writeWarningsReport (timestamp : String) (warnings : List Warning)
    (suppressedCodes : OrderedSet String) (tool : ToolInfo)
    (releaseMeta : ReleaseMeta) : Json :=
  Json.null
    |>.set "tool"
        (Json.null
          |>.set "name" (.string tool.name)
          |>.set "version" (.string tool.version))
    |>.set "generated_at" (.string timestamp)
    |>.setIf (releaseMeta.productId ≠ "") "product"
        (reportedProduct releaseMeta)
    |>.set "warnings" (.array (warningsJson warnings suppressedCodes))
    |>.set "total_occurrences" (.integer warnings.length)

theorem mem_warningsJson_iff {warnings : List Warning}
    {suppressedCodes : OrderedSet String} {entry : Json} :
    entry ∈ warningsJson warnings suppressedCodes ↔
      ∃ key group, (groupWarnings warnings)[key]? = some group ∧
        groupToJson key group
          (isCodeSuppressed key.codeId key.ecosystem suppressedCodes) =
            entry := by
  simp only [warningsJson, List.mem_map, Prod.exists, mem_toList_iff]

theorem find?_suppressed_groupToJson (key : WarningGroupKey)
    (group : WarningGroup) (suppressed : Bool) :
    (groupToJson key group suppressed).find? "suppressed" =
      some (.boolean suppressed) := by
  simp [groupToJson]

theorem find?_count_groupToJson (key : WarningGroupKey)
    (group : WarningGroup) (suppressed : Bool) :
    (groupToJson key group suppressed).find? "count" =
      some (.integer group.occurrenceCount) := by
  simp [groupToJson]

/-- Some warning is of the key of a group, and some group of that of a
warning. -/
theorem isSome_groupWarnings_iff {warnings : List Warning}
    {key : WarningGroupKey} :
    (groupWarnings warnings)[key]?.isSome ↔
      ∃ warning ∈ warnings, warningGroupKey warning = key := by
  rw [(gathers_groupWarnings warnings key).isSome_iff, occurrencesOf, ne_eq,
    List.filter_eq_nil_iff]
  push Not
  simp

/-- A group is unsuppressed exactly when a warning is. -/
theorem exists_unsuppressed_iff {warnings : List Warning}
    {suppressedCodes : OrderedSet String} :
    (∃ entry ∈ warningsJson warnings suppressedCodes,
        entry.find? "suppressed" = some (.boolean false)) ↔
      ∃ warning ∈ warnings,
        isWarningSuppressed warning suppressedCodes = false := by
  constructor
  · rintro ⟨entry, hentry, hfind⟩
    obtain ⟨key, group, hgroup, rfl⟩ := mem_warningsJson_iff.mp hentry
    rw [find?_suppressed_groupToJson, Option.some_inj,
      Json.boolean.injEq] at hfind
    obtain ⟨warning, hwarning, rfl⟩ :=
      isSome_groupWarnings_iff.mp (Option.isSome_of_eq_some hgroup)
    exact ⟨warning, hwarning, hfind⟩
  · rintro ⟨warning, hwarning, hsuppressed⟩
    obtain ⟨group, hgroup⟩ := Option.isSome_iff_exists.mp
      (isSome_groupWarnings_iff.mpr ⟨warning, hwarning, rfl⟩)
    refine ⟨_, mem_warningsJson_iff.mpr ⟨_, group, hgroup, rfl⟩, ?_⟩
    rw [find?_suppressed_groupToJson]
    exact congrArg (some ∘ Json.boolean) hsuppressed

def statedCount (entry : Json) : Nat :=
  match entry.find? "count" with
  | some (.integer count) => count.toNat
  | _ => 0

/-- The groups' numbers are the occurrences, each counted in one group. -/
theorem sum_statedCount (warnings : List Warning)
    (suppressedCodes : OrderedSet String) :
    ((warningsJson warnings suppressedCodes).map statedCount).sum =
      warnings.length := by
  have hkeys : ((groupWarnings warnings).toList.map Prod.fst).Perm
      (warnings.map warningGroupKey).dedup := by
    apply (List.perm_ext_iff_of_nodup (nodup_keys_toList _)
      (List.nodup_dedup _)).mpr
    intro key
    rw [mem_keys_toList_iff, isSome_groupWarnings_iff, List.mem_dedup,
      List.mem_map]
  have hstated : (warningsJson warnings suppressedCodes).map statedCount =
      ((groupWarnings warnings).toList.map Prod.fst).map
        (@List.count _ instBEqOfDecidableEq · (warnings.map warningGroupKey)) := by
    rw [warningsJson, List.map_map, List.map_map]
    apply List.map_congr_left
    rintro ⟨key, group⟩ hentry
    have hgathers := gathers_groupWarnings warnings key
    rw [mem_toList_iff.mp hentry] at hgathers
    have hcount := hgathers.occurrenceCount
    simp only [Option.elim_some] at hcount
    simp only [Function.comp_apply, statedCount, find?_count_groupToJson,
      hcount, occurrencesOf, Int.toNat_natCast, List.count, List.countP_map]
    rw [← List.countP_eq_length_filter]
    rfl
  rw [hstated, (hkeys.map _).sum_eq, List.sum_map_count_dedup_eq_length,
    List.length_map]

theorem min_eq_of_perm {left right : List String} (hperm : left.Perm right)
    (hleft : left ≠ []) (hright : right ≠ []) :
    left.min hleft = right.min hright := by
  apply le_antisymm
  · exact List.min_le_of_mem (hperm.mem_iff.mpr (List.min_mem hright))
  · exact List.min_le_of_mem (hperm.mem_iff.mp (List.min_mem hleft))

/-- The warnings of a key in another order make the same entry. -/
theorem Gathers.map_groupToJson_eq {left right : Option WarningGroup}
    {occurrences others : List Warning} (hleft : Gathers left occurrences)
    (hright : Gathers right others) (hperm : occurrences.Perm others)
    (key : WarningGroupKey) (suppressed : Bool) :
    left.map (groupToJson key · suppressed) =
      right.map (groupToJson key · suppressed) := by
  have hsome : left.isSome ↔ right.isSome := by
    rw [hleft.isSome_iff, hright.isSome_iff, ne_eq, ne_eq,
      ← List.length_eq_zero_iff, ← List.length_eq_zero_iff, hperm.length_eq]
  rcases left with _ | left <;> rcases right with _ | right
  · rfl
  · simp at hsome
  · simp at hsome
  have hmessages := hperm.map Warning.message
  have hcount := hperm.length_eq
  rw [← hleft.messages, ← hright.messages] at hmessages
  rw [← hleft.occurrenceCount, ← hright.occurrenceCount] at hcount
  have hpaths : left.affectedPaths = right.affectedPaths := by
    apply ExtTreeSet.ext_mem
    intro path
    have hl := hleft.mem_affectedPaths path
    have hr := hright.mem_affectedPaths path
    simp only [Option.elim_some] at hl hr
    simp only [hl, hr, hperm.mem_iff]
  simp only [Option.elim_some] at hmessages hcount
  simp only [Option.map_some, groupToJson, hcount, hpaths,
    min_eq_of_perm hmessages left.messages_ne_nil right.messages_ne_nil]

theorem warningsJson_perm {warnings others : List Warning}
    (hperm : warnings.Perm others) (suppressedCodes : OrderedSet String) :
    warningsJson warnings suppressedCodes =
      warningsJson others suppressedCodes := by
  apply map_toList_congr
    (f := fun key group => groupToJson key group
      (isCodeSuppressed key.codeId key.ecosystem suppressedCodes))
    (g := fun key group => groupToJson key group
      (isCodeSuppressed key.codeId key.ecosystem suppressedCodes))
  intro key
  exact (gathers_groupWarnings warnings key).map_groupToJson_eq
    (gathers_groupWarnings others key) (hperm.filter _) key _

theorem writeWarningsReport_perm {warnings others : List Warning}
    (hperm : warnings.Perm others) (timestamp : String)
    (suppressedCodes : OrderedSet String) (tool : ToolInfo)
    (releaseMeta : ReleaseMeta) :
    writeWarningsReport timestamp warnings suppressedCodes tool releaseMeta =
      writeWarningsReport timestamp others suppressedCodes tool
        releaseMeta := by
  rw [writeWarningsReport, writeWarningsReport, warningsJson_perm hperm,
    hperm.length_eq]

theorem findArray?_warnings (timestamp : String) (warnings : List Warning)
    (suppressedCodes : OrderedSet String) (tool : ToolInfo)
    (releaseMeta : ReleaseMeta) :
    (writeWarningsReport timestamp warnings suppressedCodes tool
      releaseMeta).findArray? "warnings" =
        some (warningsJson warnings suppressedCodes) := by
  simp [writeWarningsReport, Json.findArray?]

end Bomwerk.Output
