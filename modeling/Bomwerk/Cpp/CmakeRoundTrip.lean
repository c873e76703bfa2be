import Bomwerk.Cpp.CmakeSource

/-!
# Scanning a rendering gives the commands back

The commands of a rendering stand in its text; by induction over the commands of
a file, a cursor in front of blanks is as good as one behind them.
-/

namespace Bomwerk.Cpp

open Bomwerk.Core

/-! ## The items of a command -/

theorem separated_tail {item : Item} {items : List Item}
    (h : Separated (item :: items)) : Separated items := by
  cases item with
  | argument form =>
    cases items with
    | nil => trivial
    | cons next items =>
      cases next with
      | argument other => exact h.elim
      | blank separator => exact h
      | opening => exact h
      | closing => exact h
  | blank separator => exact h
  | opening => exact h
  | closing => exact h

theorem commentsApart_tail {item : Item} {items : List Item}
    (h : CommentsApart (item :: items)) : CommentsApart items := by
  cases item with
  | argument form =>
    cases form with
    | bare spelling =>
      cases items with
      | nil => trivial
      | cons next items =>
        cases next with
        | blank separator => exact h.2
        | argument other => exact h
        | opening => exact h
        | closing => exact h
    | quoted spelling => exact h
    | bracketed level body => exact h
  | blank separator => exact h
  | opening => exact h
  | closing => exact h

theorem endsBare_items {spelling : List Spelled} {items : List Item}
    (hvalid : ∀ item ∈ items, item.IsValid)
    (hseparated : Separated (.argument (.bare spelling) :: items))
    (hapart : CommentsApart (.argument (.bare spelling) :: items))
    (rest : List UInt8) :
    EndsBare (itemBytes items ++ ')'.toUInt8 :: rest) := by
  cases items with
  | nil => exact ⟨')'.toUInt8, rest, rfl, by decide⟩
  | cons next items =>
    cases next with
    | argument form => exact hseparated.elim
    | opening => exact ⟨'('.toUInt8, _, rfl, by decide⟩
    | closing => exact ⟨')'.toUInt8, _, rfl, by decide⟩
    | blank separator =>
      cases separator with
      | space character =>
        have hspace : isSpace character = true :=
          hvalid (.blank (.space character)) (by simp)
        exact ⟨character, _, rfl, by simp [endsBareArgument, hspace]⟩
      | lineComment body => cases hapart.1
      | bracketComment level body => cases hapart.1

theorem standBefore_of_isValid {items : List Item}
    (hvalid : ∀ item ∈ items, item.IsValid) (hseparated : Separated items)
    (hapart : CommentsApart items) (rest : List UInt8) :
    StandBefore (')'.toUInt8 :: rest) items := by
  induction items with
  | nil => trivial
  | cons item items ih =>
    have hitem := hvalid item (by simp)
    have hitems : ∀ other ∈ items, other.IsValid :=
      fun other hmem => hvalid other (by simp [hmem])
    refine ⟨?_, ih hitems (separated_tail hseparated)
      (commentsApart_tail hapart)⟩
    cases item with
    | blank separator => exact hitem
    | opening => trivial
    | closing => trivial
    | argument form =>
      apply standsBefore_of_isValid hitem.1
      rintro spelling rfl
      exact endsBare_items hitems hseparated hapart rest

theorem closes_of_balanced {depth : Nat} {items : List Item}
    (h : Balanced depth items) : Closes depth items := by
  induction items generalizing depth with
  | nil => exact h
  | cons item items ih =>
    cases item with
    | blank separator => exact ih h
    | argument form => exact ih h
    | opening => exact ih h.2
    | closing => exact ⟨h.1, ih h.2⟩

theorem deepest_le_of_balanced {depth : Nat} {items : List Item}
    (h : Balanced depth items) (hdepth : depth + 1 ≤ maxParenDepth) :
    deepest (depth + 1) items ≤ maxParenDepth := by
  induction items generalizing depth with
  | nil => exact hdepth
  | cons item items ih =>
    cases item with
    | blank separator => exact ih h hdepth
    | argument form => exact ih h hdepth
    | opening => exact ih h.2 h.1
    | closing =>
      obtain ⟨hopen, hinner⟩ := h
      obtain ⟨depth, rfl⟩ := Nat.exists_eq_succ_of_ne_zero hopen.ne'
      exact max_le hdepth (ih hinner (by omega))

theorem map_bounded_values {items : List Item}
    (hvalid : ∀ item ∈ items, item.IsValid) :
    (values items).map bounded = values items := by
  rw [List.map_congr_left (g := id), List.map_id]
  intro value hmem
  obtain ⟨item, hitem, hvalue⟩ := List.mem_filterMap.mp hmem
  cases item with
  | argument form =>
    obtain rfl := Option.some.inj hvalue
    exact bounded_eq_self (hvalid (.argument form) hitem).2
  | blank separator => cases hvalue
  | opening => cases hvalue
  | closing => cases hvalue

theorem standsAt_of_isValid {command : CommandForm} (h : command.IsValid)
    (hapart : CommentsApart command.items) (rest : List UInt8) :
    command.StandsAt (command.bytes ++ rest) rest where
  bytes := rfl
  name_chars := h.name_chars
  gap := h.gap
  items := standBefore_of_isValid h.items h.separated hapart rest
  closes := closes_of_balanced h.balanced

theorem readCommand_form {command : CommandForm} (h : command.IsValid)
    (hapart : CommentsApart command.items) (rest : List UInt8) (line : Nat)
    (warnings : List Warning) :
    readCommand ⟨command.bytes ++ rest, line, warnings⟩ =
      (⟨rest, line + command.bytes.count '\n'.toUInt8, warnings⟩,
        some { name := command.name, arguments := values command.items
               line := line }) := by
  have hcounts : command.WithinCounts :=
    ⟨h.arguments_le, deepest_le_of_balanced h.balanced (by decide)⟩
  rw [readCommand_withinCounts (standsAt_of_isValid h hapart rest) hcounts,
    map_bounded_values h.items]

/-! ## A file -/

theorem name_front {command : CommandForm} (h : command.IsValid)
    (rest : List UInt8) :
    ∃ first behind, command.bytes ++ rest = first :: behind ∧
      isIdentifierStart first = true := by
  obtain ⟨first, others, hname, hstart⟩ := h.name_start
  rw [CommandForm.bytes, hname]
  exact ⟨first, _, rfl, hstart⟩

theorem stops_identifier {first : UInt8} (h : isIdentifierStart first = true)
    (rest : List UInt8) : Stops (first :: rest) := by
  apply stops_cons
  · rw [Bool.eq_false_iff]
    intro hspace
    simp only [isSpace, Bool.or_eq_true, decide_eq_true_eq] at hspace
    rcases hspace with ((rfl | rfl) | rfl) | rfl <;> revert h <;> decide
  · rintro rfl
    revert h
    decide

theorem scanWithin_congr (fuel : Nat) (commands : List CmakeCommand)
    {cursor other : Cursor} (h : skipIgnorable cursor = skipIgnorable other) :
    scanWithin (fuel + 1) commands cursor =
      scanWithin (fuel + 1) commands other := by
  simp only [scanWithin, h]

theorem scanWithin_command (fuel : Nat) {commands : List CmakeCommand}
    {command : CommandForm} (h : command.IsValid)
    (hapart : CommentsApart command.items)
    (hcount : commands.length < maxCommandsPerFile) (rest : List UInt8)
    (line : Nat) (warnings : List Warning) :
    scanWithin (fuel + 1) commands ⟨command.bytes ++ rest, line, warnings⟩ =
      scanWithin fuel
        (commands ++ [{ name := command.name
                        arguments := values command.items, line := line }])
        ⟨rest, line + command.bytes.count '\n'.toUInt8, warnings⟩ := by
  have hread := readCommand_form h hapart rest line warnings
  obtain ⟨first, behind, hbytes, hstart⟩ := name_front h rest
  have hroom : ¬maxCommandsPerFile ≤ commands.length := by omega
  rw [hbytes] at hread ⊢
  simp only [scanWithin, skipIgnorable_stops (stops_identifier hstart behind),
    if_neg hroom, hstart, if_true, hread, Option.toList_some]

/-- One run of the scan: it records the commands in order, each with the line
that the bytes in front of it lead to. -/
theorem scanWithin_commands {entries : List (List Blank × CommandForm)}
    {rest : List UInt8} {warnings : List Warning}
    (hblanks : ∀ entry ∈ entries, ∀ blank ∈ entry.1, blank.IsValid)
    (hcommands : ∀ entry ∈ entries, entry.2.IsValid)
    (hapart : ∀ entry ∈ entries, CommentsApart entry.2.items)
    (hend : ∀ line, ∃ last, skipIgnorable ⟨rest, line, warnings⟩ =
      ⟨[], last, warnings⟩) :
    ∀ {fuel : Nat} {commands : List CmakeCommand} (before : List UInt8),
      commands.length + entries.length ≤ maxCommandsPerFile →
        (FileForm.commandBytes entries).length < fuel →
          scanWithin fuel commands ⟨FileForm.commandBytes entries ++ rest,
              1 + before.count '\n'.toUInt8, warnings⟩ =
            { value := commands ++ FileForm.commandsBehind before entries
              warnings := warnings } := by
  induction entries with
  | nil =>
    intro fuel commands before _ hfuel
    obtain ⟨fuel, rfl⟩ := Nat.exists_eq_succ_of_ne_zero (by omega : fuel ≠ 0)
    obtain ⟨last, hlast⟩ := hend (1 + before.count '\n'.toUInt8)
    simp [FileForm.commandBytes, FileForm.commandsBehind, scanWithin, hlast]
  | cons entry entries ih =>
    intro fuel commands before hcount hfuel
    obtain ⟨blanks, command⟩ := entry
    have hcommand : command.IsValid := hcommands (blanks, command) (by simp)
    have hrun := @ih (fun other hmem => hblanks other (by simp [hmem]))
      (fun other hmem => hcommands other (by simp [hmem]))
      (fun other hmem => hapart other (by simp [hmem]))
    have hbytes : FileForm.commandBytes ((blanks, command) :: entries) =
        blankBytes blanks ++
          (command.bytes ++ FileForm.commandBytes entries) := by
      simp [FileForm.commandBytes]
    obtain ⟨fuel, rfl⟩ := Nat.exists_eq_succ_of_ne_zero (by omega : fuel ≠ 0)
    have hskip := skipIgnorable_blanks
      (hblanks (blanks, command) (by simp))
      (command.bytes ++ (FileForm.commandBytes entries ++ rest))
      (1 + before.count '\n'.toUInt8) warnings
    have hlines : 1 + before.count '\n'.toUInt8 +
        (blankBytes blanks).count '\n'.toUInt8 =
          1 + (before ++ blankBytes blanks).count '\n'.toUInt8 := by
      rw [List.count_append, Nat.add_assoc]
    have hbehind : 1 + (before ++ blankBytes blanks).count '\n'.toUInt8 +
        command.bytes.count '\n'.toUInt8 =
          1 + (before ++ (blankBytes blanks ++ command.bytes)).count
            '\n'.toUInt8 := by
      have hcount : (before ++ blankBytes blanks ++ command.bytes).count
          '\n'.toUInt8 = (before ++ blankBytes blanks).count '\n'.toUInt8 +
            command.bytes.count '\n'.toUInt8 :=
        List.count_append
      rw [← List.append_assoc, hcount, Nat.add_assoc]
    have hroom : commands.length < maxCommandsPerFile := by
      rw [List.length_cons] at hcount
      omega
    have hcount' : (commands ++ [{
        name := command.name
        arguments := values command.items
        line := 1 + (before ++ blankBytes blanks).count '\n'.toUInt8 :
          CmakeCommand }]).length + entries.length ≤ maxCommandsPerFile := by
      rw [List.length_cons] at hcount
      rw [List.length_append, List.length_singleton]
      omega
    have hlength : 0 < command.bytes.length := by
      obtain ⟨first, behind, hfirst, _⟩ := name_front hcommand []
      rw [List.append_nil] at hfirst
      simp [hfirst]
    have hfuel' : (FileForm.commandBytes entries).length < fuel := by
      rw [hbytes, List.length_append, List.length_append] at hfuel
      omega
    rw [hbytes, List.append_assoc, List.append_assoc,
      scanWithin_congr fuel commands hskip, hlines,
      scanWithin_command fuel hcommand (hapart (blanks, command) (by simp))
        hroom, hbehind, hrun _ hcount' hfuel', List.append_assoc]
    rfl

theorem skipIgnorable_tail {file : FileForm} (h : file.IsValid) (line : Nat)
    (warnings : List Warning) :
    ∃ last, skipIgnorable
      ⟨blankBytes file.tail ++ file.lastBytes, line, warnings⟩ =
        ⟨[], last, warnings⟩ := by
  rw [skipIgnorable_blanks h.tail]
  cases hcomment : file.lastComment with
  | none => exact ⟨_, by rw [FileForm.lastBytes, hcomment]; rfl⟩
  | some body =>
    rw [FileForm.lastBytes, hcomment]
    exact ⟨_, skipIgnorable_lastComment (h.lastComment body hcomment) _
      warnings⟩

/-- Scanning a rendering gives the commands back when no comment stands directly
behind a bare argument. -/
theorem scanCmakeCommands_rendering (file : FileForm) (h : file.IsValid)
    (hapart : ∀ entry ∈ file.commands, CommentsApart entry.2.items) :
    scanCmakeCommands file.bytes = { value := file.rendered } := by
  have hfuel : (FileForm.commandBytes file.commands).length <
      file.bytes.length + 1 := by
    rw [FileForm.bytes, List.length_append]
    omega
  have hcount : ([] : List CmakeCommand).length + file.commands.length ≤
      maxCommandsPerFile := by
    rw [List.length_nil, Nat.zero_add]
    exact h.commands_le
  exact scanWithin_commands h.blanks h.commands hapart
    (fun line => skipIgnorable_tail h line []) [] hcount hfuel

theorem isLineComment_of_front {body : List UInt8}
    (hnewline : '\n'.toUInt8 ∉ body) (hfront : body.head? ≠ some '['.toUInt8) :
    IsLineComment body := by
  refine ⟨hnewline, ?_⟩
  rintro ⟨level, rest, rfl⟩
  exact hfront rfl

/-- A file with a comment, a nested parenthesis and two forms of an argument. -/
def sampleFile : FileForm where
  commands := [([.lineComment (text "c")],
    { name := text "set"
      items := [.argument (.bare [{ character := 'v'.toUInt8 }]),
        .blank (.space ' '.toUInt8), .opening,
        .argument (.quoted [{ character := '"'.toUInt8, escaped := true }]),
        .closing] })]
  tail := [.space '\n'.toUInt8]

theorem sampleFile_isValid : sampleFile.IsValid := by
  constructor
  · intro entry hentry blank hblank
    obtain rfl := List.mem_singleton.mp hentry
    obtain rfl := List.mem_singleton.mp hblank
    exact isLineComment_of_front (by decide) (by decide)
  · intro entry hentry
    obtain rfl := List.mem_singleton.mp hentry
    constructor
    · exact ⟨'s'.toUInt8, text "et", by decide, by decide⟩
    · decide +kernel
    · simp
    · intro item hitem
      simp only [List.mem_cons, List.not_mem_nil, or_false] at hitem
      rcases hitem with rfl | rfl | rfl | rfl | rfl
      · refine ⟨⟨by simp, ?_, ?_⟩, by decide⟩ <;> unfold Escapes <;> decide
      · exact (by decide : isSpace ' '.toUInt8 = true)
      · trivial
      · refine ⟨?_, by decide⟩
        simp [ArgumentForm.IsValid, Escapes]
      · trivial
    · exact ⟨by decide, by decide, rfl⟩
    · simp [Separated]
    · decide
  · intro blank hblank
    obtain rfl := List.mem_singleton.mp hblank
    exact (by decide : isSpace '\n'.toUInt8 = true)
  · intro body hbody
    cases hbody
  · decide

theorem scanCmakeCommands_rendering_sample :
    scanCmakeCommands (text "#c\nset(v (\"\\\"\"))\n") =
      { value := [{ name := text "set", arguments := [text "v", text "\""]
                    line := 2 }] } := by
  have hbytes : sampleFile.bytes = text "#c\nset(v (\"\\\"\"))\n" := by decide
  have hrendered : sampleFile.rendered =
      [{ name := text "set", arguments := [text "v", text "\""]
         line := 2 }] := by
    decide
  rw [← hbytes, ← hrendered]
  apply scanCmakeCommands_rendering sampleFile sampleFile_isValid
  intro entry hmem
  obtain rfl : entry = _ := List.mem_singleton.mp hmem
  simp [CommentsApart, Blank.isComment]

/-- A comment directly behind a bare argument is read as a part of it. -/
def touchingFile : FileForm where
  commands := [([],
    { name := text "f"
      items := [.argument (.bare [{ character := 'a'.toUInt8 }]),
        .blank (.lineComment (text "c")),
        .argument (.bare [{ character := 'b'.toUInt8 }])] })]

theorem touchingFile_isValid : touchingFile.IsValid := by
  constructor
  · intro entry hentry blank hblank
    obtain rfl := List.mem_singleton.mp hentry
    cases hblank
  · intro entry hentry
    obtain rfl := List.mem_singleton.mp hentry
    constructor
    · exact ⟨'f'.toUInt8, [], by decide, by decide⟩
    · decide +kernel
    · simp
    · intro item hitem
      simp only [List.mem_cons, List.not_mem_nil, or_false] at hitem
      rcases hitem with rfl | rfl | rfl
      · refine ⟨⟨by simp, ?_, ?_⟩, by decide⟩ <;> unfold Escapes <;> decide
      · exact isLineComment_of_front (by decide) (by decide)
      · refine ⟨⟨by simp, ?_, ?_⟩, by decide⟩ <;> unfold Escapes <;> decide
    · exact rfl
    · simp [Separated]
    · decide
  · intro blank hblank
    cases hblank
  · intro body hbody
    cases hbody
  · decide

theorem scan_not_roundTrip :
    ¬∀ file : FileForm, file.IsValid →
      scanCmakeCommands file.bytes = { value := file.rendered } := by
  intro hall
  have hscan := congrArg (fun result => result.value.map CmakeCommand.arguments)
    (hall touchingFile touchingFile_isValid)
  revert hscan
  decide +kernel

end Bomwerk.Cpp
