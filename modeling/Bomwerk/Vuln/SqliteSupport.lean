import Bomwerk.Core.Path
import Mathlib.Logic.Function.Basic

/-!
# Opening and migrating a database

`open_and_migrate` and `migrate_schema` of `vuln/sqlite_support.cpp`, run by any
number of processes on one file.  A transaction works on a copy of the database
that its commit puts in place; between `BEGIN IMMEDIATE` and its end no other
process has one.  Every statement may fail, and a process may end anywhere.
-/

namespace Bomwerk.Vuln.SqliteSupport

open Bomwerk.Core

/-- What a migration looks at: `PRAGMA user_version` and the statements that
made the schema. -/
structure Database where
  version : Int
  applied : List String
  deriving DecidableEq, Repr

namespace Database

def execute (database : Database) (statement : String) : Database :=
  { database with applied := database.applied ++ [statement] }

/-- `PRAGMA user_version = version`. -/
def stamp (database : Database) (version : Nat) : Database :=
  { database with version := version }

/-- The database with the steps from its own version up to the target. -/
def migrateTo (migrations : List String) (database : Database)
    (target : Nat) : Database where
  version := target
  applied := database.applied ++
    (migrations.take target).drop database.version.toNat

end Database

/-! ## Processes -/

/-- `OpenedDatabase`: a handle or a warning. -/
inductive OpenOutcome
  | opened
  | disabled (warning : String)
  deriving DecidableEq, Repr

/-- The arguments of `open_and_migrate`. -/
structure Opening where
  databasePath : FsPath
  storeName : String
  targetSchemaVersion : Nat

/-- The openings of one file.  A version of the program knows as many of the
migration steps as its target version says. -/
structure Store (ι : Type*) where
  migrations : List String
  openings : ι → Opening
  known : ∀ i, (openings i).targetSchemaVersion ≤ migrations.length

/-- How far a process is: the statement it executes next, or how it ended. -/
inductive Phase
  | creatingDirectories
  | connecting
  | reading
  | beginning
  | checking
  | migrating (startingVersion version : Nat)
  | stamping (startingVersion : Nat)
  | committing (startingVersion : Nat)
  | rollingBack (outcome : OpenOutcome)
  | returned (outcome : OpenOutcome)
  | crashed
  deriving DecidableEq, Repr

/-- What becomes of the next statement of a process.  One that fails may leave
its transaction in any state. -/
inductive Action
  | succeed
  | fail (message : String) (left : Database)
  | crash

structure System (ι : Type*) where
  committed : Database
  /-- The process inside a transaction, with its copy of the database. -/
  transaction : Option (ι × Database)
  phases : ι → Phase

section Steps

variable {ι : Type*} [DecidableEq ι] (store : Store ι)

namespace Opening

variable (opening : Opening)

/-- A warning of `open_and_migrate`. -/
def disabled (cause : String) : OpenOutcome :=
  .disabled (opening.storeName ++ " disabled: " ++ cause)

/-- The warning about an error of `migrate_schema`. -/
def migrationError (message : String) : OpenOutcome :=
  opening.disabled (opening.databasePath.genericString ++ ": " ++ message)

/-- What follows the read before any lock is held; `-1` when it failed. -/
def afterRead (schemaVersion : Int) : Phase :=
  if schemaVersion > opening.targetSchemaVersion then
    .returned (opening.disabled (opening.databasePath.genericString ++
      " has schema version " ++ toString schemaVersion ++
      " (newer than this bomwerk understands)"))
  else if schemaVersion = opening.targetSchemaVersion then .returned .opened
  else .beginning

def afterLockedRead (lockedVersion : Int) : Phase :=
  if lockedVersion = opening.targetSchemaVersion then .rollingBack .opened
  else if lockedVersion > opening.targetSchemaVersion then
    .rollingBack (opening.migrationError ("has schema version " ++
      toString lockedVersion ++ " (newer than this bomwerk understands, target " ++
      toString opening.targetSchemaVersion ++ ")"))
  else if lockedVersion < 0 then
    .rollingBack (opening.migrationError
      "cannot read schema version while holding the write lock")
  else .migrating lockedVersion.toNat lockedVersion.toNat

end Opening

namespace System

variable (system : System ι)

def setPhase (i : ι) (phase : Phase) : System ι :=
  { system with phases := Function.update system.phases i phase }

/-- Nothing is left of a transaction of the process. -/
def endTransaction (i : ι) : System ι :=
  { system with
    transaction :=
      if system.transaction.map Prod.fst = some i then none
      else system.transaction }

/-- A statement inside the transaction of a process. -/
def inTransaction (i : ι) (f : Database → Database) : System ι :=
  { system with
    transaction := system.transaction.map fun (owner, working) =>
      if owner = i then (owner, f working) else (owner, working) }

def commit (i : ι) : System ι :=
  match system.transaction with
  | some (owner, working) =>
    if owner = i then
      { system with committed := working, transaction := none }
    else system
  | none => system

/-- The version that a process reads inside its own transaction. -/
def workingVersion : Int :=
  match system.transaction with
  | some (_, working) => working.version
  | none => system.committed.version

/-- The next statement of a process succeeds. -/
def afterSuccess (i : ι) : Option (System ι) :=
  let opening := store.openings i
  let target := opening.targetSchemaVersion
  match system.phases i with
  | .creatingDirectories => some (system.setPhase i .connecting)
  | .connecting => some (system.setPhase i .reading)
  | .reading =>
    some (system.setPhase i (opening.afterRead system.committed.version))
  | .beginning =>
    -- `BEGIN IMMEDIATE` only succeeds where no other process is inside.
    match system.transaction with
    | some _ => none
    | none =>
      some
        ({ system with transaction := some (i, system.committed) }.setPhase
          i .checking)
  | .checking =>
    some (system.setPhase i (opening.afterLockedRead system.workingVersion))
  | .migrating startingVersion version =>
    if version < target then
      some
        ((system.inTransaction i
          (·.execute (store.migrations.getD version ""))).setPhase i
            (.migrating startingVersion (version + 1)))
    else some (system.setPhase i (.stamping startingVersion))
  | .stamping startingVersion =>
    some ((system.inTransaction i (·.stamp target)).setPhase i
      (.committing startingVersion))
  | .committing _ => some ((system.commit i).setPhase i (.returned .opened))
  | .rollingBack outcome =>
    some ((system.endTransaction i).setPhase i (.returned outcome))
  | .returned _ => none
  | .crashed => none

/-- The next statement of a process fails. -/
def afterFailure (i : ι) (message : String) (left : Database) :
    Option (System ι) :=
  let opening := store.openings i
  match system.phases i with
  | .creatingDirectories =>
    some (system.setPhase i (.returned (opening.disabled ("cannot create " ++
      opening.databasePath.parentPath.genericString ++ ": " ++ message))))
  | .connecting =>
    some (system.setPhase i (.returned (opening.disabled ("cannot open " ++
      opening.databasePath.genericString ++ ": " ++ message))))
  | .reading => some (system.setPhase i (opening.afterRead (-1)))
  | .beginning =>
    some (system.setPhase i (.returned (opening.migrationError message)))
  | .checking => some (system.setPhase i (opening.afterLockedRead (-1)))
  | .migrating _ version =>
    if version < opening.targetSchemaVersion then
      some
        ((system.inTransaction i fun _ => left).setPhase i
          (.rollingBack (opening.migrationError
            ("migration to schema version " ++ toString (version + 1) ++
              " failed: " ++ message))))
    else none
  | .stamping _ =>
    some ((system.inTransaction i fun _ => left).setPhase i
      (.rollingBack (opening.migrationError message)))
  | .committing _ =>
    some (system.setPhase i (.rollingBack (opening.migrationError message)))
  | .rollingBack .opened =>
    -- The handle is kept, and with it the transaction.
    some (system.setPhase i (.returned .opened))
  | .rollingBack (.disabled warning) =>
    -- Closing the handle ends the transaction all the same.
    some ((system.endTransaction i).setPhase i (.returned (.disabled warning)))
  | .returned _ => none
  | .crashed => none

end System

/-- One step of a process, if it can be taken. -/
def next (system : System ι) (i : ι) : Action → Option (System ι)
  | .succeed => system.afterSuccess store i
  | .fail message left => system.afterFailure store i message left
  | .crash => some ((system.endTransaction i).setPhase i .crashed)

/-- A step that was taken. -/
structure Transition (ι : Type*) where
  actor : ι
  before : System ι
  after : System ι

/-- The run of a schedule: its transitions and the system at its end. -/
def run (system : System ι) :
    List (ι × Action) → Option (List (Transition ι) × System ι)
  | [] => some ([], system)
  | (i, action) :: schedule =>
    match next store system i action with
    | none => none
    | some after =>
      (run after schedule).map fun (transitions, last) =>
        (⟨i, system, after⟩ :: transitions, last)

/-- Every process is about to open the file. -/
def initialSystem (database : Database) : System ι where
  committed := database
  transaction := none
  phases _ := .creatingDirectories

/-- The transitions of a process that changed the file. -/
def changesBy (i : ι) (transitions : List (Transition ι)) :
    List (Transition ι) :=
  transitions.filter fun transition =>
    transition.actor = i ∧
      transition.before.committed ≠ transition.after.committed

end Steps
end Bomwerk.Vuln.SqliteSupport
