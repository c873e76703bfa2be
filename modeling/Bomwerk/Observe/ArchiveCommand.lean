import Bomwerk.Observe.LinkMap

/-!
# Command lines of `ar`

An `ar` command names its operation and modifiers in one group of key letters
or in several dashed ones; `a`, `b`, `i` and `N` take an operand each, ahead of
the archive.  The scan of such a line reads the first group only, and it does
not ask what the operation does.
-/

namespace Bomwerk.Observe

open Bomwerk.Core

/-! ## Commands -/

/-- What an `ar` command does. -/
inductive ArOperation
  | delete
  | move
  | print
  | quickAppend
  | replace
  | symbolIndex
  | list
  | extract
  deriving DecidableEq, Repr

namespace ArOperation

def letter : ArOperation → Char
  | delete => 'd'
  | move => 'm'
  | print => 'p'
  | quickAppend => 'q'
  | replace => 'r'
  | symbolIndex => 's'
  | list => 't'
  | extract => 'x'

/-- Printing, listing and extracting leave the archive as it is. -/
def writes : ArOperation → Bool
  | print => false
  | list => false
  | extract => false
  | _ => true

end ArOperation

/-- An option in front of the key letters. -/
inductive ArLongOption
  | plugin (value : String)
  | target (value : String)
  | flag (name : String)
      (other : name ≠ "" ∧ name ≠ "plugin" ∧ name ≠ "target")

def ArLongOption.arguments : ArLongOption → List String
  | plugin value => ["--plugin", value]
  | target value => ["--target", value]
  | flag name _ => ["--" ++ name]

def takesOperand (key : Char) : Bool :=
  key = 'a' || key = 'b' || key = 'i' || key = 'N'

/-- A command line of `ar`.  `s` may stand beside another operation, as a
modifier; script mode names no archive on the command line and is left out. -/
structure ArCommand where
  longOptions : List ArLongOption
  operation : ArOperation
  firstDashed : Bool
  firstKeys : List Char
  furtherKeys : List (List Char)
  positions : List String
  archive : String
  members : List String
  first_ne_nil : firstKeys ≠ []
  further_ne_nil : ∀ keys ∈ furtherKeys, keys ≠ []
  keys_known : ∀ key ∈ firstKeys ++ furtherKeys.flatten,
    key ∈ archiveKeyLetters ∧ key ≠ 'M'
  operation_named : operation.letter ∈ firstKeys ++ furtherKeys.flatten
  operation_only : ∀ other : ArOperation,
    other.letter ∈ firstKeys ++ furtherKeys.flatten →
      other = operation ∨ other = .symbolIndex
  positions_taken :
    positions.length = (firstKeys ++ furtherKeys.flatten).countP takesOperand
  operands_plain : ∀ operand ∈ positions ++ archive :: members,
    startsWith operand "-" = false

namespace ArCommand

/-- A group of key letters on the command line. -/
def dashed (keys : List Char) : String :=
  String.ofList ('-' :: keys)

def firstGroup (command : ArCommand) : String :=
  if command.firstDashed then dashed command.firstKeys
  else String.ofList command.firstKeys

def behindFirst (command : ArCommand) : List String :=
  command.furtherKeys.map dashed ++ command.positions ++
    command.archive :: command.members

/-- The command as a build trace records it. -/
def record (command : ArCommand) (tool program workingDirectory : String) :
    TraceRecord where
  tool := tool
  arguments :=
    program :: (command.longOptions.flatMap ArLongOption.arguments ++
      command.firstGroup :: command.behindFirst)
  workingDirectory := workingDirectory

def written (command : ArCommand) : Option String :=
  if command.operation.writes then some command.archive else none

/-- The operands the first group takes, counted from behind it, end at the
archive: there is one group, or a position operand of the archive's name stands
there. -/
def ReachesArchive (command : ArCommand) : Prop :=
  command.furtherKeys = [] ∨
    ∃ position, command.positions[position]? = some command.archive ∧
      command.furtherKeys.length + position =
        command.firstKeys.countP takesOperand

/-! ## What the scan reads -/

theorem archiveOperands_longOption (option : ArLongOption)
    (rest : List String) :
    archiveOperands (option.arguments ++ rest) = archiveOperands rest := by
  cases option with
  | plugin value => simp [ArLongOption.arguments, archiveOperands]
  | target value => simp [ArLongOption.arguments, archiveOperands]
  | flag name other =>
    have hplugin : "--" ++ name ≠ "--plugin" := by
      intro h
      exact other.2.1 ((String.append_right_inj "--").mp h)
    have htarget : "--" ++ name ≠ "--target" := by
      intro h
      exact other.2.2 ((String.append_right_inj "--").mp h)
    have hdashes : startsWith ("--" ++ name) "--" = true := by
      simp [startsWith]
    change archiveOperands (("--" ++ name) :: rest) = _
    rw [archiveOperands.eq_def]
    simp [hplugin, htarget, hdashes]

theorem archiveOperands_longOptions (options : List ArLongOption)
    (rest : List String) :
    archiveOperands (options.flatMap ArLongOption.arguments ++ rest) =
      archiveOperands rest := by
  induction options with
  | nil => rfl
  | cons option options ih =>
    rw [List.flatMap_cons, List.append_assoc, archiveOperands_longOption, ih]

variable (command : ArCommand)

theorem firstKeys_head :
    ∃ key keys, command.firstKeys = key :: keys ∧ key ≠ '-' := by
  obtain ⟨key, keys, hkeys⟩ :=
    List.exists_cons_of_ne_nil command.first_ne_nil
  refine ⟨key, keys, hkeys, ?_⟩
  rintro rfl
  have hknown := (command.keys_known '-' (by simp [hkeys])).1
  exact absurd hknown (by decide)

theorem archiveOperands_firstGroup (rest : List String) :
    archiveOperands (command.firstGroup :: rest) =
      command.firstGroup :: rest := by
  obtain ⟨key, keys, hkeys, hkey⟩ := command.firstKeys_head
  have hdashes : startsWith command.firstGroup "--" = false := by
    rw [firstGroup, dashed, hkeys, startsWith]
    split_ifs <;> simp [List.isPrefixOf, Ne.symm hkey]
  have hoption : ["--plugin", "--target"].contains command.firstGroup =
      false := by
    rw [Bool.eq_false_iff]
    intro hmem
    simp only [List.contains_eq_mem, List.mem_cons, List.not_mem_nil,
      or_false, decide_eq_true_eq] at hmem
    rcases hmem with hmem | hmem <;> rw [hmem] at hdashes <;>
      exact absurd hdashes (by decide)
  rw [archiveOperands.eq_def]
  simp only [hoption, hdashes, Bool.false_eq_true, if_false]

theorem letters_firstGroup :
    (if startsWith command.firstGroup "-" then
        command.firstGroup.toList.drop 1
      else command.firstGroup.toList) = command.firstKeys := by
  obtain ⟨key, keys, hkeys, hkey⟩ := command.firstKeys_head
  rw [firstGroup, dashed, hkeys]
  cases command.firstDashed <;>
    simp [startsWith, List.isPrefixOf, Ne.symm hkey]

theorem countP_archiveKeysTakingOperand (keys : List Char) :
    keys.countP archiveKeysTakingOperand.contains =
      keys.countP takesOperand := by
  apply List.countP_congr
  intro key _
  simp [archiveKeysTakingOperand, takesOperand, or_assoc]

/-- The scan counts the operands of the first group's letters off from
everything behind that group. -/
theorem scanArchiveOutput_record (tool program workingDirectory : String) :
    scanArchiveOutput (command.record tool program workingDirectory) =
      command.behindFirst[command.firstKeys.countP takesOperand]? := by
  have hknown : command.firstKeys.any (fun key =>
      !archiveKeyLetters.contains key || key = 'M') = false := by
    rw [List.any_eq_false]
    intro key hkey
    have hletter := command.keys_known key (List.mem_append_left _ hkey)
    simp [hletter.1, hletter.2]
  have hempty : command.firstKeys.isEmpty = false := by
    simpa using command.first_ne_nil
  unfold scanArchiveOutput
  simp only [record, List.drop_succ_cons, List.drop_zero,
    archiveOperands_longOptions, archiveOperands_firstGroup,
    letters_firstGroup, hknown, hempty, Bool.false_eq_true, or_self, if_false,
    countP_archiveKeysTakingOperand]

theorem countP_firstKeys_le :
    command.firstKeys.countP takesOperand ≤ command.positions.length := by
  rw [command.positions_taken, List.countP_append]
  omega

theorem isSome_scanArchiveOutput (tool program workingDirectory : String) :
    (scanArchiveOutput
      (command.record tool program workingDirectory)).isSome = true := by
  have hle := command.countP_firstKeys_le
  have hbound : command.firstKeys.countP takesOperand <
      command.behindFirst.length := by
    rw [behindFirst, List.length_append, List.length_append, List.length_cons]
    omega
  rw [scanArchiveOutput_record, List.getElem?_eq_getElem hbound]
  rfl

theorem startsWith_dashed (keys : List Char) :
    startsWith (dashed keys) "-" = true := by
  simp [startsWith, dashed]

theorem startsWith_archive : startsWith command.archive "-" = false :=
  command.operands_plain command.archive (by simp)

theorem behindFirst_getElem?_iff :
    command.behindFirst[command.firstKeys.countP takesOperand]? =
        some command.archive ↔ command.ReachesArchive := by
  have hle := command.countP_firstKeys_le
  by_cases hone : command.furtherKeys = []
  · -- Every operand is one of the first group's.
    have hcount : command.firstKeys.countP takesOperand =
        command.positions.length := by
      rw [command.positions_taken, hone, List.flatten_nil, List.append_nil]
    have hread : command.behindFirst[command.positions.length]? =
        some command.archive := by
      simp [behindFirst, hone]
    simp [ReachesArchive, hone, hcount, hread]
  have hfurther := List.length_pos_of_ne_nil hone
  rw [behindFirst, List.append_assoc]
  by_cases hgroup : command.firstKeys.countP takesOperand <
      command.furtherKeys.length
  · -- The count ends among the further groups.
    rw [List.getElem?_append_left (by simpa using hgroup)]
    constructor
    · intro hread
      obtain ⟨keys, -, hkeys⟩ :=
        List.mem_map.mp (List.mem_of_getElem? hread)
      have hplain := command.startsWith_archive
      rw [← hkeys, startsWith_dashed] at hplain
      exact absurd hplain (by simp)
    · rintro (h | ⟨position, -, hposition⟩)
      · exact absurd h hone
      · omega
  · -- It ends among the position operands.
    rw [List.getElem?_append_right (by simpa using Nat.le_of_not_lt hgroup),
      List.length_map, List.getElem?_append_left (by omega)]
    constructor
    · intro hread
      exact Or.inr ⟨_, hread, by omega⟩
    · rintro (h | ⟨position, hread, hposition⟩)
      · exact absurd h hone
      · rw [← hposition, Nat.add_sub_cancel_left]
        exact hread

/-- The scan gives the archive a command writes, or nothing for one that only
reads, exactly for the commands that write and whose first group leads to the
archive. -/
theorem scanArchiveOutput_eq_written_iff
    (tool program workingDirectory : String) :
    scanArchiveOutput (command.record tool program workingDirectory) =
        command.written ↔
      command.operation.writes = true ∧ command.ReachesArchive := by
  rw [written]
  split_ifs with hwrites
  · rw [scanArchiveOutput_record, behindFirst_getElem?_iff]
    simp [hwrites]
  · have hsome :=
      command.isSome_scanArchiveOutput tool program workingDirectory
    simp only [hwrites, false_and, iff_false, Bool.false_eq_true]
    intro hnone
    rw [hnone] at hsome
    exact absurd hsome (by simp)

/-- `ar -r -c lib.a x.o`. -/
def separatelyDashed : ArCommand where
  longOptions := []
  operation := .replace
  firstDashed := true
  firstKeys := ['r']
  furtherKeys := [['c']]
  positions := []
  archive := "lib.a"
  members := ["x.o"]
  first_ne_nil := by decide
  further_ne_nil := by decide
  keys_known := by
    intro key hkey
    rcases List.mem_cons.mp hkey with rfl | hlast
    · decide
    · obtain rfl := List.mem_singleton.mp hlast
      decide
  operation_named := by decide
  operation_only := by
    intro other
    cases other <;> decide
  positions_taken := by decide
  operands_plain := by decide

theorem scanArchiveOutput_separatelyDashed :
    scanArchiveOutput (separatelyDashed.record "ar" "ar" "/work") ≠
      separatelyDashed.written := by
  decide

end ArCommand

end Bomwerk.Observe
