import Bomwerk.Vuln.SqliteSupport

/-!
# Atomic migration

Whatever the interleaving and whatever fails, the file changes only by a
commit, and a commit brings it from its version to the target of the process
with every step in between.  The invariant says what a process inside the
transaction has done so far; no other process can disturb it.
-/

namespace Bomwerk.Vuln.SqliteSupport

variable {ι : Type*} [DecidableEq ι] {store : Store ι}

/-- The steps from one version up to another. -/
def stepsBetween (migrations : List String) (low high : Nat) : List String :=
  (migrations.take high).drop low

theorem stepsBetween_succ {migrations : List String} {low high : Nat}
    (hle : low ≤ high) (hhigh : high < migrations.length) :
    stepsBetween migrations low (high + 1) =
      stepsBetween migrations low high ++ [migrations.getD high ""] := by
  have hlow : low ≤ (migrations.take high).length := by
    rw [List.length_take]
    omega
  rw [stepsBetween, stepsBetween, List.take_add_one,
    List.drop_append_of_le_length hlow]
  simp [List.getElem?_eq_getElem hhigh, List.getD_eq_getElem?_getD]

theorem stepsBetween_self (migrations : List String) (version : Nat) :
    stepsBetween migrations version version = [] :=
  List.drop_eq_nil_of_le (List.length_take_le version migrations)

theorem stepsBetween_append (migrations : List String) {low middle high : Nat}
    (hlow : low ≤ middle) (hmiddle : middle ≤ high)
    (hhigh : high ≤ migrations.length) :
    stepsBetween migrations low middle ++ stepsBetween migrations middle high =
      stepsBetween migrations low high := by
  induction high, hmiddle using Nat.le_induction with
  | base => rw [stepsBetween_self, List.append_nil]
  | succ high hmiddle ih =>
    rw [stepsBetween_succ hmiddle hhigh, stepsBetween_succ (by omega) hhigh,
      ← ih (by omega), List.append_assoc]

/-- What a process has done inside its transaction. -/
def PhaseInvariant (store : Store ι) (i : ι) (committed : Database)
    (transaction : Option (ι × Database)) : Phase → Prop
  | .checking => transaction = some (i, committed)
  | .migrating startingVersion version =>
    committed.version = startingVersion ∧ startingVersion ≤ version ∧
      version ≤ (store.openings i).targetSchemaVersion ∧
      startingVersion < (store.openings i).targetSchemaVersion ∧
      transaction = some (i,
        { committed with
          applied := committed.applied ++
            stepsBetween store.migrations startingVersion version })
  | .stamping startingVersion =>
    committed.version = startingVersion ∧
      startingVersion < (store.openings i).targetSchemaVersion ∧
      transaction = some (i,
        { committed with
          applied := committed.applied ++
            stepsBetween store.migrations startingVersion
              (store.openings i).targetSchemaVersion })
  | .committing startingVersion =>
    committed.version = startingVersion ∧
      startingVersion < (store.openings i).targetSchemaVersion ∧
      transaction = some (i, committed.migrateTo store.migrations
        (store.openings i).targetSchemaVersion)
  | .rollingBack .opened =>
    committed.version = (store.openings i).targetSchemaVersion ∧
      ∃ working, transaction = some (i, working)
  | .rollingBack (.disabled _) => ∃ working, transaction = some (i, working)
  | _ => True

def Invariant (store : Store ι) (system : System ι) : Prop :=
  ∀ i, PhaseInvariant store i system.committed system.transaction
    (system.phases i)

omit [DecidableEq ι] in
theorem invariant_initialSystem (database : Database) :
    Invariant store (initialSystem database) := fun _ => trivial

omit [DecidableEq ι] in
/-- A process outside a transaction has no part in the file. -/
theorem phaseInvariant_of_outside {i : ι} {committed committed' : Database}
    {transaction transaction' : Option (ι × Database)} {phase : Phase}
    (houtside : ∀ working, transaction ≠ some (i, working))
    (hinvariant : PhaseInvariant store i committed transaction phase) :
    PhaseInvariant store i committed' transaction' phase := by
  cases phase with
  | checking => exact absurd hinvariant (houtside _)
  | migrating startingVersion version =>
    exact absurd hinvariant.2.2.2.2 (houtside _)
  | stamping startingVersion => exact absurd hinvariant.2.2 (houtside _)
  | committing startingVersion => exact absurd hinvariant.2.2 (houtside _)
  | rollingBack outcome =>
    cases outcome with
    | opened =>
      obtain ⟨-, working, hworking⟩ := hinvariant
      exact absurd hworking (houtside working)
    | disabled warning =>
      obtain ⟨working, hworking⟩ := hinvariant
      exact absurd hworking (houtside working)
  | _ => trivial

/-! ## One step -/

/-- The file after a step of a process: as before, or brought from an older
version to the target of the process, which then has it open. -/
def StepEffect (store : Store ι) (system after : System ι) (i : ι) : Prop :=
  after.committed = system.committed ∨ 0 ≤ system.committed.version ∧
      system.committed.version < (store.openings i).targetSchemaVersion ∧
      after.committed = system.committed.migrateTo store.migrations
        (store.openings i).targetSchemaVersion ∧
      after.phases i = .returned .opened

/-- What a step of a process cannot touch: the phases of the others, and the
file while another one is inside a transaction. -/
structure Undisturbed (system after : System ι) (i : ι) : Prop where
  phases : ∀ j, j ≠ i → after.phases j = system.phases j
  transaction : ∀ j, j ≠ i → ∀ working, system.transaction = some (j, working) →
      after.transaction = system.transaction ∧
        after.committed = system.committed

section Frame

variable {system : System ι} {i : ι}

@[simp] theorem setPhase_committed (phase : Phase) :
    (system.setPhase i phase).committed = system.committed := rfl

@[simp] theorem setPhase_transaction (phase : Phase) :
    (system.setPhase i phase).transaction = system.transaction := rfl

@[simp] theorem setPhase_phases_self (phase : Phase) :
    (system.setPhase i phase).phases i = phase := by
  simp [System.setPhase]

theorem undisturbed_setPhase (phase : Phase) :
    Undisturbed system (system.setPhase i phase) i where
  phases j hne := by simp [System.setPhase, hne]
  transaction _ _ _ _ := ⟨rfl, rfl⟩

theorem undisturbed_endTransaction (phase : Phase) :
    Undisturbed system ((system.endTransaction i).setPhase i phase) i where
  phases j hne := by simp [System.setPhase, System.endTransaction, hne]
  transaction j hne working htransaction := by
    simp [System.endTransaction, htransaction, hne]

theorem undisturbed_inTransaction (f : Database → Database) (phase : Phase) :
    Undisturbed system ((system.inTransaction i f).setPhase i phase) i where
  phases j hne := by simp [System.setPhase, System.inTransaction, hne]
  transaction j hne working htransaction := by
    simp [System.inTransaction, htransaction, hne]

theorem undisturbed_commit (phase : Phase) :
    Undisturbed system ((system.commit i).setPhase i phase) i where
  phases j hne := by
    simp only [System.setPhase, Function.update_of_ne hne, System.commit]
    split
    · split <;> rfl
    · rfl
  transaction j hne working htransaction := by
    simp [System.commit, htransaction, hne]

end Frame

/-- Everything a step of a process does and keeps. -/
structure StepSpec (store : Store ι) (system after : System ι) (i : ι) :
    Prop where
  undisturbed : Undisturbed system after i
  effect : StepEffect store system after i
  phase : PhaseInvariant store i after.committed after.transaction
    (after.phases i)
  /-- When the process gets its handle, the file is at its target version. -/
  opened : after.phases i = .returned .opened →
    after.committed.version = (store.openings i).targetSchemaVersion

section Steps

variable {system : System ι} {i : ι}

theorem stepSpec_setPhase {phase : Phase}
    (hphase : PhaseInvariant store i system.committed system.transaction
      phase)
    (hopened : phase = .returned .opened →
      system.committed.version = (store.openings i).targetSchemaVersion) :
    StepSpec store system (system.setPhase i phase) i where
  undisturbed := undisturbed_setPhase phase
  effect := Or.inl rfl
  phase := by simpa using hphase
  opened := by simpa using hopened

theorem stepSpec_inTransaction {working : Database}
    (hheld : system.transaction = some (i, working))
    {f : Database → Database} {phase : Phase}
    (hphase : PhaseInvariant store i system.committed
      (some (i, f working)) phase)
    (hopened : phase ≠ .returned .opened) :
    StepSpec store system ((system.inTransaction i f).setPhase i phase) i where
  undisturbed := undisturbed_inTransaction f phase
  effect := Or.inl rfl
  phase := by
    have htransaction : (system.inTransaction i f).transaction =
        some (i, f working) := by
      simp [System.inTransaction, hheld]
    rw [setPhase_phases_self, setPhase_transaction, htransaction]
    exact hphase
  opened h := by
    rw [setPhase_phases_self] at h
    exact absurd h hopened

theorem stepSpec_endTransaction {phase : Phase}
    (hphase : ∀ committed transaction,
      PhaseInvariant store i committed transaction phase)
    (hopened : phase = .returned .opened →
      system.committed.version = (store.openings i).targetSchemaVersion) :
    StepSpec store system ((system.endTransaction i).setPhase i phase) i where
  undisturbed := undisturbed_endTransaction phase
  effect := Or.inl rfl
  phase := by
    rw [setPhase_phases_self]
    exact hphase _ _
  opened h := by
    rw [setPhase_phases_self] at h
    exact hopened h

theorem stepSpec_commit {startingVersion : Nat}
    (hphase : PhaseInvariant store i system.committed system.transaction
      (.committing startingVersion)) :
    StepSpec store system
      ((system.commit i).setPhase i (.returned .opened)) i := by
  obtain ⟨hversion, hlt, htransaction⟩ := hphase
  refine ⟨undisturbed_commit _, Or.inr ⟨?_, ?_, ?_, ?_⟩, ?_, fun _ => ?_⟩
  · rw [hversion]
    exact Int.natCast_nonneg startingVersion
  · rw [hversion]
    exact_mod_cast hlt
  · simp [System.commit, htransaction]
  · exact setPhase_phases_self _
  · rw [setPhase_phases_self]
    trivial
  · simp [System.commit, htransaction, Database.migrateTo]

omit [DecidableEq ι] in
theorem afterRead_eq_opened {schemaVersion : Int}
    (hopened : (store.openings i).afterRead schemaVersion = .returned .opened) :
    schemaVersion = (store.openings i).targetSchemaVersion := by
  rw [Opening.afterRead] at hopened
  split at hopened
  · cases hopened
  · split at hopened
    · assumption
    · cases hopened

omit [DecidableEq ι] in
theorem afterLockedRead_ne_opened (lockedVersion : Int) :
    (store.openings i).afterLockedRead lockedVersion ≠ .returned .opened := by
  rw [Opening.afterLockedRead]
  split
  · nofun
  · split
    · nofun
    · split <;> nofun

omit [DecidableEq ι] in
/-- The read under the write lock decides with the version that the lock now
protects. -/
theorem phaseInvariant_afterLockedRead
    (hheld : system.transaction = some (i, system.committed))
    {lockedVersion : Int}
    (hread : lockedVersion = system.committed.version ∨ lockedVersion = -1) :
    PhaseInvariant store i system.committed system.transaction
      ((store.openings i).afterLockedRead lockedVersion) := by
  have hheld' : ∃ working, system.transaction = some (i, working) :=
    ⟨_, hheld⟩
  rw [Opening.afterLockedRead]
  split
  · rename_i htarget
    refine ⟨?_, hheld'⟩
    rcases hread with hread | hread <;> omega
  · split
    · exact hheld'
    · split
      · exact hheld'
      · rename_i hne hnewer hnegative
        have hversion : system.committed.version = lockedVersion.toNat := by
          rcases hread with hread | hread <;> omega
        refine ⟨hversion, le_rfl, by omega, by omega, ?_⟩
        rw [hheld, stepsBetween_self, List.append_nil]

theorem stepSpec_afterSuccess {after : System ι}
    (hphase : PhaseInvariant store i system.committed system.transaction
      (system.phases i))
    (hstep : system.afterSuccess store i = some after) :
    StepSpec store system after i := by
  rw [System.afterSuccess] at hstep
  generalize system.phases i = phase at hstep hphase
  cases phase with
  | creatingDirectories =>
    obtain rfl := Option.some.inj hstep
    exact stepSpec_setPhase trivial nofun
  | connecting =>
    obtain rfl := Option.some.inj hstep
    exact stepSpec_setPhase trivial nofun
  | reading =>
    obtain rfl := Option.some.inj hstep
    refine stepSpec_setPhase ?_ fun hopened => afterRead_eq_opened hopened
    rw [Opening.afterRead]
    split
    · trivial
    · split <;> trivial
  | beginning =>
    cases htransaction : system.transaction with
    | some held => simp [htransaction] at hstep
    | none =>
      simp only [htransaction, Option.some.injEq] at hstep
      subst hstep
      refine ⟨⟨?_, ?_⟩, Or.inl rfl, ?_, ?_⟩
      · intro j hne
        simp [System.setPhase, hne]
      · intro j _ working hworking
        rw [htransaction] at hworking
        cases hworking
      · simp [PhaseInvariant]
      · rw [setPhase_phases_self]
        nofun
  | checking =>
    obtain rfl := Option.some.inj hstep
    refine stepSpec_setPhase (phaseInvariant_afterLockedRead hphase ?_)
      fun h => absurd h (afterLockedRead_ne_opened _)
    left
    rw [System.workingVersion, show system.transaction = _ from hphase]
  | migrating startingVersion version =>
    obtain ⟨hversion, hlow, hhigh, hlt, htransaction⟩ := hphase
    dsimp only at hstep
    split at hstep
    · rename_i hmore
      obtain rfl := Option.some.inj hstep
      refine stepSpec_inTransaction htransaction
        ⟨hversion, by omega, hmore, hlt, ?_⟩ nofun
      rw [stepsBetween_succ hlow (hmore.trans_le (store.known i))]
      simp [Database.execute]
    · obtain rfl := Option.some.inj hstep
      have hdone : version = (store.openings i).targetSchemaVersion := by
        omega
      exact stepSpec_setPhase ⟨hversion, hlt, hdone ▸ htransaction⟩ nofun
  | stamping startingVersion =>
    obtain ⟨hversion, hlt, htransaction⟩ := hphase
    obtain rfl := Option.some.inj hstep
    refine stepSpec_inTransaction htransaction ⟨hversion, hlt, ?_⟩ nofun
    simp [Database.stamp, Database.migrateTo, stepsBetween, hversion]
  | committing startingVersion =>
    obtain rfl := Option.some.inj hstep
    exact stepSpec_commit hphase
  | rollingBack outcome =>
    obtain rfl := Option.some.inj hstep
    refine stepSpec_endTransaction (fun _ _ => trivial) fun h => ?_
    obtain rfl := Phase.returned.inj h
    exact hphase.1
  | returned outcome =>
    cases hstep
  | crashed =>
    cases hstep

theorem stepSpec_afterFailure {after : System ι} {message : String}
    {left : Database}
    (hphase : PhaseInvariant store i system.committed system.transaction
      (system.phases i))
    (hstep : system.afterFailure store i message left = some after) :
    StepSpec store system after i := by
  rw [System.afterFailure] at hstep
  generalize system.phases i = phase at hstep hphase
  cases phase with
  | creatingDirectories =>
    obtain rfl := Option.some.inj hstep
    exact stepSpec_setPhase trivial nofun
  | connecting =>
    obtain rfl := Option.some.inj hstep
    exact stepSpec_setPhase trivial nofun
  | reading =>
    obtain rfl := Option.some.inj hstep
    refine stepSpec_setPhase ?_ fun hopened => ?_
    · rw [Opening.afterRead]
      split
      · trivial
      · split <;> trivial
    · have hversion := afterRead_eq_opened hopened
      omega
  | beginning =>
    obtain rfl := Option.some.inj hstep
    exact stepSpec_setPhase trivial nofun
  | checking =>
    obtain rfl := Option.some.inj hstep
    exact stepSpec_setPhase
      (phaseInvariant_afterLockedRead hphase (Or.inr rfl))
      fun h => absurd h (afterLockedRead_ne_opened _)
  | migrating startingVersion version =>
    obtain ⟨-, -, -, -, htransaction⟩ := hphase
    dsimp only at hstep
    split at hstep
    · obtain rfl := Option.some.inj hstep
      exact stepSpec_inTransaction htransaction ⟨left, rfl⟩ nofun
    · cases hstep
  | stamping startingVersion =>
    obtain rfl := Option.some.inj hstep
    exact stepSpec_inTransaction hphase.2.2 ⟨left, rfl⟩ nofun
  | committing startingVersion =>
    obtain rfl := Option.some.inj hstep
    exact stepSpec_setPhase ⟨_, hphase.2.2⟩ nofun
  | rollingBack outcome =>
    cases outcome with
    | opened =>
      obtain rfl := Option.some.inj hstep
      exact stepSpec_setPhase trivial fun _ => hphase.1
    | disabled warning =>
      obtain rfl := Option.some.inj hstep
      exact stepSpec_endTransaction (fun _ _ => trivial) nofun
  | returned outcome =>
    cases hstep
  | crashed =>
    cases hstep

theorem stepSpec_next {after : System ι} {action : Action}
    (hinvariant : Invariant store system)
    (hstep : next store system i action = some after) :
    StepSpec store system after i := by
  cases action with
  | succeed => exact stepSpec_afterSuccess (hinvariant i) hstep
  | fail message left => exact stepSpec_afterFailure (hinvariant i) hstep
  | crash =>
    obtain rfl := Option.some.inj hstep
    exact stepSpec_endTransaction (fun _ _ => trivial) nofun

theorem StepSpec.invariant {after : System ι}
    (hspec : StepSpec store system after i)
    (hinvariant : Invariant store system) : Invariant store after := by
  intro j
  by_cases hj : j = i
  · subst hj
    exact hspec.phase
  · rw [hspec.undisturbed.phases j hj]
    by_cases hheld : ∃ working, system.transaction = some (j, working)
    · obtain ⟨working, hworking⟩ := hheld
      obtain ⟨htransaction, hcommitted⟩ :=
        hspec.undisturbed.transaction j hj working hworking
      rw [htransaction, hcommitted]
      exact hinvariant j
    · exact phaseInvariant_of_outside (fun working h => hheld ⟨working, h⟩)
        (hinvariant j)

/-- A process that ended has no part in the file any more. -/
theorem next_of_ended {after : System ι} {action : Action}
    (hended : system.phases i = .crashed ∨
      ∃ outcome, system.phases i = .returned outcome)
    (hstep : next store system i action = some after) :
    after.committed = system.committed ∧ after.phases i = .crashed := by
  cases action with
  | succeed =>
    rw [next, System.afterSuccess] at hstep
    rcases hended with hended | ⟨outcome, hended⟩ <;> simp [hended] at hstep
  | fail message left =>
    rw [next, System.afterFailure] at hstep
    rcases hended with hended | ⟨outcome, hended⟩ <;> simp [hended] at hstep
  | crash =>
    obtain rfl := Option.some.inj hstep
    exact ⟨rfl, setPhase_phases_self _⟩

end Steps

/-! ## Runs -/

section Runs

variable {system last : System ι} {transitions : List (Transition ι)}
  {schedule : List (ι × Action)}

theorem run_cons_eq_some {i : ι} {action : Action}
    (hrun : run store system ((i, action) :: schedule) =
      some (transitions, last)) :
    ∃ after rest, next store system i action = some after ∧
      run store after schedule = some (rest, last) ∧
        transitions = ⟨i, system, after⟩ :: rest := by
  rw [run] at hrun
  cases hstep : next store system i action with
  | none => simp [hstep] at hrun
  | some after =>
    simp only [hstep, Option.map_eq_some_iff, Prod.exists] at hrun
    obtain ⟨rest, last', hrest, hpair⟩ := hrun
    obtain ⟨rfl, rfl⟩ := Prod.mk.inj hpair
    exact ⟨after, rest, rfl, hrest, rfl⟩

theorem stepSpec_of_run (hinvariant : Invariant store system)
    (hrun : run store system schedule = some (transitions, last)) :
    ∀ transition ∈ transitions,
      StepSpec store transition.before transition.after transition.actor := by
  induction schedule generalizing system transitions with
  | nil =>
    obtain ⟨rfl, rfl⟩ := Prod.mk.inj (Option.some.inj hrun)
    simp
  | cons entry schedule ih =>
    obtain ⟨i, action⟩ := entry
    obtain ⟨after, rest, hstep, hrest, rfl⟩ := run_cons_eq_some hrun
    have hspec := stepSpec_next hinvariant hstep
    intro transition hmem
    rcases List.mem_cons.mp hmem with rfl | hmem
    · exact hspec
    · exact ih (hspec.invariant hinvariant) hrest transition hmem

theorem changesBy_cons (i : ι) (transition : Transition ι)
    (rest : List (Transition ι)) :
    changesBy i (transition :: rest) =
      if transition.actor = i ∧
          transition.before.committed ≠ transition.after.committed then
        transition :: changesBy i rest
      else changesBy i rest := by
  simp [changesBy, List.filter_cons]

theorem changesBy_of_ended {i : ι} (hinvariant : Invariant store system)
    (hended : system.phases i = .crashed ∨
      ∃ outcome, system.phases i = .returned outcome)
    (hrun : run store system schedule = some (transitions, last)) :
    changesBy i transitions = [] ∧
      (last.phases i = system.phases i ∨ last.phases i = .crashed) := by
  induction schedule generalizing system transitions with
  | nil =>
    obtain ⟨rfl, rfl⟩ := Prod.mk.inj (Option.some.inj hrun)
    exact ⟨rfl, Or.inl rfl⟩
  | cons entry schedule ih =>
    obtain ⟨j, action⟩ := entry
    obtain ⟨after, rest, hstep, hrest, rfl⟩ := run_cons_eq_some hrun
    have hspec := stepSpec_next hinvariant hstep
    have hinvariant' := hspec.invariant hinvariant
    rw [changesBy_cons]
    by_cases hj : j = i
    · subst hj
      obtain ⟨hsame, hcrashed⟩ := next_of_ended hended hstep
      obtain ⟨hnone, hphase⟩ :=
        ih hinvariant' (Or.inl hcrashed) hrest
      rw [hcrashed, or_self] at hphase
      exact ⟨by simp [hsame, hnone], Or.inr hphase⟩
    · have hphase := hspec.undisturbed.phases i (Ne.symm hj)
      rw [← hphase] at hended
      obtain ⟨hnone, hlast⟩ := ih hinvariant' hended hrest
      exact ⟨by simp [hj, hnone], hphase ▸ hlast⟩

/-- A process changes the file at most once, and then to its target. -/
def ChangesOnce (store : Store ι) (i : ι) (changes : List (Transition ι)) :
    Prop :=
  changes = [] ∨ ∃ change, changes = [change] ∧
      0 ≤ change.before.committed.version ∧
      change.before.committed.version < (store.openings i).targetSchemaVersion ∧
      change.after.committed =
        change.before.committed.migrateTo store.migrations
          (store.openings i).targetSchemaVersion

theorem changesOnce_of_run {i : ι} (hinvariant : Invariant store system)
    (hrun : run store system schedule = some (transitions, last)) :
    ChangesOnce store i (changesBy i transitions) ∧
      (changesBy i transitions ≠ [] →
        last.phases i = .returned .opened ∨ last.phases i = .crashed) := by
  induction schedule generalizing system transitions with
  | nil =>
    obtain ⟨rfl, rfl⟩ := Prod.mk.inj (Option.some.inj hrun)
    exact ⟨Or.inl rfl, fun h => absurd rfl h⟩
  | cons entry schedule ih =>
    obtain ⟨j, action⟩ := entry
    obtain ⟨after, rest, hstep, hrest, rfl⟩ := run_cons_eq_some hrun
    have hspec := stepSpec_next hinvariant hstep
    have hinvariant' := hspec.invariant hinvariant
    rw [changesBy_cons]
    by_cases hchange : j = i ∧ system.committed ≠ after.committed
    · rw [if_pos hchange]
      obtain ⟨rfl, hne⟩ := hchange
      rcases hspec.effect with hsame | ⟨hnonneg, hlt, heffect, hopened⟩
      · exact absurd hsame.symm hne
      · obtain ⟨hnone, hphase⟩ :=
          changesBy_of_ended hinvariant' (Or.inr ⟨_, hopened⟩) hrest
        rw [hopened] at hphase
        exact ⟨Or.inr ⟨_, by rw [hnone], hnonneg, hlt, heffect⟩,
          fun _ => hphase⟩
    · rw [if_neg hchange]
      exact ih hinvariant' hrest

/-- The file is as it was, or at some known version with every step on the way
there, once and in order. -/
def IsMigrated (store : Store ι) (original database : Database) : Prop :=
  database = original ∨
    ∃ target : Nat, 0 ≤ original.version ∧ original.version < target ∧
      target ≤ store.migrations.length ∧
      database = original.migrateTo store.migrations target

omit [DecidableEq ι] in
theorem migrateTo_migrateTo {migrations : List String} {database : Database}
    {middle target : Nat} (hversion : 0 ≤ database.version)
    (hmiddle : database.version < middle) (htarget : middle < target)
    (hlength : target ≤ migrations.length) :
    (database.migrateTo migrations middle).migrateTo migrations target =
      database.migrateTo migrations target := by
  have hsteps : stepsBetween migrations database.version.toNat middle ++
      stepsBetween migrations middle target =
        stepsBetween migrations database.version.toNat target :=
    stepsBetween_append migrations (by omega) (by omega) hlength
  simp only [stepsBetween] at hsteps
  simp [Database.migrateTo, hsteps]

omit [DecidableEq ι] in
theorem isMigrated_of_effect {original : Database} {after : System ι} {i : ι}
    (hmigrated : IsMigrated store original system.committed)
    (heffect : StepEffect store system after i) :
    IsMigrated store original after.committed := by
  rcases heffect with hsame | ⟨hnonneg, hlt, heffect, -⟩
  · exact hsame ▸ hmigrated
  · have hknown := store.known i
    right
    refine ⟨(store.openings i).targetSchemaVersion, ?_⟩
    rcases hmigrated with hsame | ⟨middle, hversion, hmiddle, -, hcommitted⟩
    · exact ⟨hsame ▸ hnonneg, hsame ▸ hlt, hknown, hsame ▸ heffect⟩
    · have hreached : system.committed.version = middle := by
        rw [hcommitted]
        rfl
      refine ⟨hversion, by omega, hknown, ?_⟩
      rw [heffect, hcommitted,
        migrateTo_migrateTo hversion hmiddle (by omega) hknown]

theorem isMigrated_of_run {original : Database}
    (hinvariant : Invariant store system)
    (hmigrated : IsMigrated store original system.committed)
    (hrun : run store system schedule = some (transitions, last)) :
    IsMigrated store original last.committed := by
  induction schedule generalizing system transitions with
  | nil =>
    obtain ⟨rfl, rfl⟩ := Prod.mk.inj (Option.some.inj hrun)
    exact hmigrated
  | cons entry schedule ih =>
    obtain ⟨i, action⟩ := entry
    obtain ⟨after, rest, hstep, hrest, rfl⟩ := run_cons_eq_some hrun
    have hspec := stepSpec_next hinvariant hstep
    exact ih (hspec.invariant hinvariant)
      (isMigrated_of_effect hmigrated hspec.effect) hrest

/-- A process that has its handle got it in a state in which the file was at
its target version. -/
theorem exists_opened_of_run {i : ι} (hinvariant : Invariant store system)
    (hstart : system.phases i ≠ .returned .opened)
    (hopened : last.phases i = .returned .opened)
    (hrun : run store system schedule = some (transitions, last)) :
    ∃ transition ∈ transitions, transition.actor = i ∧
      transition.after.phases i = .returned .opened ∧
      transition.after.committed.version =
        (store.openings i).targetSchemaVersion := by
  induction schedule generalizing system transitions with
  | nil =>
    obtain ⟨rfl, rfl⟩ := Prod.mk.inj (Option.some.inj hrun)
    exact absurd hopened hstart
  | cons entry schedule ih =>
    obtain ⟨j, action⟩ := entry
    obtain ⟨after, rest, hstep, hrest, rfl⟩ := run_cons_eq_some hrun
    have hspec := stepSpec_next hinvariant hstep
    by_cases hafter : after.phases i = .returned .opened
    · have hj : j = i := by
        by_contra hne
        rw [hspec.undisturbed.phases i (Ne.symm hne)] at hafter
        exact hstart hafter
      subst hj
      exact ⟨⟨j, system, after⟩, by simp, rfl, hafter, hspec.opened hafter⟩
    · obtain ⟨transition, hmem, h⟩ :=
        ih (hspec.invariant hinvariant) hafter hrest
      exact ⟨transition, List.mem_cons_of_mem _ hmem, h⟩

end Runs

/-- What holds at the end of every run that begins with the given file. -/
structure AtomicallyMigrated (store : Store ι) (original : Database)
    (transitions : List (Transition ι)) (last : System ι) : Prop where
  migrated : IsMigrated store original last.committed
  once : ∀ i, ChangesOnce store i (changesBy i transitions)
  disabled : ∀ i warning, last.phases i = .returned (.disabled warning) →
    changesBy i transitions = []
  opened : ∀ i, last.phases i = .returned .opened →
    ∃ transition ∈ transitions, transition.actor = i ∧
      transition.after.phases i = .returned .opened ∧
      transition.after.committed.version =
        (store.openings i).targetSchemaVersion
  newer : ∀ transition ∈ transitions,
    (store.openings transition.actor).targetSchemaVersion ≤
        transition.before.committed.version →
      transition.after.committed = transition.before.committed

/-- Migration is atomic: for every interleaving of the processes, and whatever
fails wherever, an open leaves the file alone or brings it to its target with
every step once and in order, and a newer file stays as it is. -/
theorem atomicallyMigrated_of_run (store : Store ι) (original : Database)
    (schedule : List (ι × Action)) {transitions : List (Transition ι)}
    {last : System ι}
    (hrun : run store (initialSystem original) schedule =
      some (transitions, last)) :
    AtomicallyMigrated store original transitions last := by
  have hinvariant : Invariant store (initialSystem original) :=
    invariant_initialSystem original
  refine ⟨?_, ?_, ?_, ?_, ?_⟩
  · exact isMigrated_of_run hinvariant (Or.inl rfl) hrun
  · exact fun i => (changesOnce_of_run hinvariant hrun).1
  · intro i warning hdisabled
    by_contra hchanged
    rcases (changesOnce_of_run hinvariant hrun).2 hchanged with h | h
    · rw [hdisabled] at h
      cases h
    · rw [hdisabled] at h
      cases h
  · intro i hopened
    exact exists_opened_of_run hinvariant nofun hopened hrun
  · intro transition hmem hnewer
    rcases (stepSpec_of_run hinvariant hrun transition hmem).effect with
      hsame | ⟨-, hlt, -, -⟩
    · exact hsame
    · omega

def twoVersions : Store Bool where
  migrations := ["CREATE TABLE a", "CREATE TABLE b"]
  openings newer :=
    { databasePath := .ofString "cache/vuln.sqlite3"
      storeName := "vuln cache"
      targetSchemaVersion := if newer then 2 else 1 }
  known newer := by cases newer <;> decide

/-- The older program reads an empty file, the newer one migrates it meanwhile,
and then the older one gets the lock. -/
def overtaken : List (Bool × Action) :=
  List.replicate 3 (false, .succeed) ++ List.replicate 10 (true, .succeed) ++
    List.replicate 3 (false, .succeed)

theorem atomicallyMigrated_of_overtaken :
    ∃ transitions last,
      run twoVersions (initialSystem ⟨0, []⟩) overtaken =
          some (transitions, last) ∧
        last.committed = ⟨2, ["CREATE TABLE a", "CREATE TABLE b"]⟩ ∧
        AtomicallyMigrated twoVersions ⟨0, []⟩ transitions last := by
  have hrun : run twoVersions (initialSystem ⟨0, []⟩) overtaken =
      some ((run twoVersions (initialSystem ⟨0, []⟩) overtaken).get
        (by decide)) := by
    rw [Option.some_get]
  exact ⟨_, _, hrun, by decide,
    atomicallyMigrated_of_run twoVersions ⟨0, []⟩ overtaken hrun⟩

end Bomwerk.Vuln.SqliteSupport
