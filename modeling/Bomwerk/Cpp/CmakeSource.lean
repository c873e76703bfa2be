import Bomwerk.Cpp.CmakeArguments

/-!
# The sources of commands

A command stands in a text from its name to the parenthesis that closes it.
Reading passes exactly its source, when it has neither too many arguments nor
too many open parentheses.
-/

namespace Bomwerk.Cpp

open Bomwerk.Core Bomwerk.Support

def Item.StandsBefore (following : List UInt8) : Item → Prop
  | .blank separator => separator.IsValid
  | .argument form => form.StandsBefore following
  | .opening => True
  | .closing => True

/-- Each of these items stands in front of those behind it. -/
def StandBefore (following : List UInt8) : List Item → Prop
  | [] => True
  | item :: items =>
    item.StandsBefore (itemBytes items ++ following) ∧
      StandBefore following items

/-- Every parenthesis is closed, and so many that were open before. -/
def Closes : Nat → List Item → Prop
  | depth, [] => depth = 0
  | depth, .opening :: items => Closes (depth + 1) items
  | depth, .closing :: items => 0 < depth ∧ Closes (depth - 1) items
  | depth, _ :: items => Closes depth items

/-- How many parentheses are open where most are. -/
def deepest : Nat → List Item → Nat
  | depth, [] => depth
  | depth, .opening :: items => deepest (depth + 1) items
  | depth, .closing :: items => max depth (deepest (depth - 1) items)
  | depth, _ :: items => deepest depth items

namespace CommandForm

/-- The text here is that of the command, up to its own parenthesis. -/
structure StandsAt (command : CommandForm) (rest after : List UInt8) :
    Prop where
  bytes : rest = command.bytes ++ after
  name_chars : ∀ character ∈ command.name, isIdentifierChar character = true
  gap : ∀ blank ∈ command.gap, blank.IsValid
  items : StandBefore (')'.toUInt8 :: after) command.items
  closes : Closes 0 command.items

/-- The limits on arguments and on nesting. -/
structure WithinCounts (command : CommandForm) : Prop where
  arguments_le : (values command.items).length ≤ maxArgumentsPerCommand
  deepest_le : deepest 1 command.items ≤ maxParenDepth

end CommandForm

theorem stops_cons {first : UInt8} (rest : List UInt8)
    (hspace : isSpace first = false) (hcomment : first ≠ '#'.toUInt8) :
    Stops (first :: rest) := by
  intro character hhead
  obtain rfl := Option.some.inj hhead
  exact ⟨hspace, hcomment⟩

theorem readArgumentsWithin_congr (name : List UInt8) (startLine fuel : Nat)
    (arguments : List (List UInt8)) (parenDepth : Nat) {cursor other : Cursor}
    (h : skipIgnorable cursor = skipIgnorable other) :
    readArgumentsWithin name startLine (fuel + 1) arguments parenDepth cursor =
      readArgumentsWithin name startLine (fuel + 1) arguments parenDepth
        other := by
  simp only [readArgumentsWithin, h]

theorem readArgumentsWithin_end (name : List UInt8) (startLine fuel : Nat)
    (arguments : List (List UInt8)) (rest : List UInt8) (line : Nat)
    (warnings : List Warning) :
    readArgumentsWithin name startLine (fuel + 1) arguments 1
        ⟨')'.toUInt8 :: rest, line, warnings⟩ =
      (⟨rest, line, warnings⟩,
        { name := name, arguments := arguments, line := startLine }) := by
  have hstops : Stops (')'.toUInt8 :: rest) :=
    stops_cons rest (by decide) (by decide)
  simp only [readArgumentsWithin, skipIgnorable_stops hstops, if_true,
    advance_cons]
  rfl

theorem readArgumentsWithin_closing (name : List UInt8) (startLine fuel : Nat)
    (arguments : List (List UInt8)) {depth : Nat} (hdepth : 0 < depth)
    (rest : List UInt8) (line : Nat) (warnings : List Warning) :
    readArgumentsWithin name startLine (fuel + 1) arguments (depth + 1)
        ⟨')'.toUInt8 :: rest, line, warnings⟩ =
      readArgumentsWithin name startLine fuel arguments depth
        ⟨rest, line, warnings⟩ := by
  have hstops : Stops (')'.toUInt8 :: rest) :=
    stops_cons rest (by decide) (by decide)
  have hinner : depth + 1 ≠ 1 := by omega
  simp only [readArgumentsWithin, skipIgnorable_stops hstops, if_true,
    if_neg hinner, advance_cons]
  rfl

theorem readArgumentsWithin_opening (name : List UInt8) (startLine fuel : Nat)
    (arguments : List (List UInt8)) {depth : Nat}
    (hdepth : depth + 2 ≤ maxParenDepth) (rest : List UInt8) (line : Nat)
    (warnings : List Warning) :
    readArgumentsWithin name startLine (fuel + 1) arguments (depth + 1)
        ⟨'('.toUInt8 :: rest, line, warnings⟩ =
      readArgumentsWithin name startLine fuel arguments (depth + 2)
        ⟨rest, line, warnings⟩ := by
  have hstops : Stops ('('.toUInt8 :: rest) :=
    stops_cons rest (by decide) (by decide)
  have hopening : '('.toUInt8 ≠ ')'.toUInt8 := by decide
  have hshallow : ¬maxParenDepth < depth + 1 + 1 := by omega
  simp only [readArgumentsWithin, skipIgnorable_stops hstops, if_true,
    if_neg hopening, if_neg hshallow, advance_cons]
  rfl

theorem readArgumentsWithin_argument (name : List UInt8) (startLine fuel : Nat)
    {arguments : List (List UInt8)} (parenDepth : Nat) {bytes : List UInt8}
    (hstart : StartsArgument bytes)
    (hcount : arguments.length < maxArgumentsPerCommand) (line : Nat)
    (warnings : List Warning) :
    readArgumentsWithin name startLine (fuel + 1) arguments parenDepth
        ⟨bytes, line, warnings⟩ =
      readArgumentsWithin name startLine fuel
        (arguments ++ [(readArgument ⟨bytes, line, warnings⟩).2]) parenDepth
        (readArgument ⟨bytes, line, warnings⟩).1 := by
  obtain ⟨hstops, hopening, hclosing, hne⟩ := hstart
  cases bytes with
  | nil => exact absurd rfl hne
  | cons first rest =>
    have hroom : ¬maxArgumentsPerCommand ≤ arguments.length := by omega
    have hopen : first ≠ '('.toUInt8 := by simpa using hopening
    have hclose : first ≠ ')'.toUInt8 := by simpa using hclosing
    simp only [readArgumentsWithin, skipIgnorable_stops hstops,
      if_neg hopen, if_neg hclose, if_neg hroom]

/-! ## Reading the items of a command -/

theorem le_deepest (depth : Nat) (items : List Item) :
    depth ≤ deepest depth items := by
  induction items generalizing depth with
  | nil => exact le_rfl
  | cons item items ih =>
    cases item with
    | blank separator => exact ih depth
    | argument form => exact ih depth
    | opening => exact (Nat.le_succ depth).trans (ih (depth + 1))
    | closing => exact le_max_left _ _

theorem startsArgument_standsBefore {form : ArgumentForm}
    {following : List UInt8} (h : form.StandsBefore following) :
    StartsArgument (form.bytes ++ following) := by
  cases form with
  | quoted spelling =>
    exact startsArgument_cons _ (by decide) (by decide) (by decide)
      (by decide)
  | bracketed level body =>
    exact startsArgument_cons _ (by decide) (by decide) (by decide)
      (by decide)
  | bare spelling => exact h.2.2.1

/-- The delimiter behind a bare argument does not start one. -/
theorem length_pos_standsBefore {form : ArgumentForm} {following : List UInt8}
    (h : form.StandsBefore following) : 0 < form.bytes.length := by
  apply List.length_pos_of_ne_nil
  cases form with
  | quoted spelling => simp [ArgumentForm.bytes]
  | bracketed level body => simp [ArgumentForm.bytes, ArgumentForm.bracketOpener]
  | bare spelling =>
    obtain ⟨_, ⟨character, behind, rfl, hends⟩, hstart, hquote, _⟩ := h
    rintro hnil
    rw [ArgumentForm.bytes] at hnil
    rw [hnil, List.nil_append] at hstart hquote
    have hspace := (hstart.stops character rfl).1
    have hopening := hstart.not_opening
    have hclosing := hstart.not_closing
    simp only [List.head?_cons, ne_eq, Option.some.injEq]
      at hopening hclosing hquote
    simp [endsBareArgument, hspace, hopening, hclosing, hquote] at hends

theorem itemBytes_cons (item : Item) (items : List Item) :
    itemBytes (item :: items) = item.bytes ++ itemBytes items := rfl

/-- One run of the argument loop: behind so many open parentheses, it reads the
items up to the parenthesis that ends the command. -/
theorem readArgumentsWithin_standBefore (name : List UInt8) (startLine : Nat)
    {items : List Item} (rest : List UInt8) (warnings : List Warning)
    (hitems : StandBefore (')'.toUInt8 :: rest) items) :
    ∀ {fuel depth line : Nat} {arguments : List (List UInt8)},
      Closes depth items → deepest (depth + 1) items ≤ maxParenDepth →
        arguments.length + (values items).length ≤ maxArgumentsPerCommand →
          (itemBytes items).length < fuel →
            readArgumentsWithin name startLine fuel arguments (depth + 1)
                ⟨itemBytes items ++ ')'.toUInt8 :: rest, line, warnings⟩ =
              (⟨rest, line + (itemBytes items).count '\n'.toUInt8, warnings⟩,
                { name := name
                  arguments := arguments ++ (values items).map bounded
                  line := startLine }) := by
  induction items with
  | nil =>
    intro fuel depth line arguments hcloses _ _ hfuel
    obtain rfl : depth = 0 := hcloses
    obtain ⟨fuel, rfl⟩ := Nat.exists_eq_succ_of_ne_zero (by omega : fuel ≠ 0)
    have hend := readArgumentsWithin_end name startLine fuel arguments rest
      line warnings
    simpa [itemBytes, values] using hend
  | cons item items ih =>
    intro fuel depth line arguments hcloses hdeepest hcount hfuel
    obtain ⟨hitem, hbehind⟩ := hitems
    have hrun := @ih hbehind
    obtain ⟨fuel, rfl⟩ := Nat.exists_eq_succ_of_ne_zero (by omega : fuel ≠ 0)
    rw [itemBytes_cons, List.length_append] at hfuel
    rw [itemBytes_cons, List.append_assoc, List.count_append, ← Nat.add_assoc]
    cases item with
    | blank separator =>
      have hskip := skipIgnorable_blank hitem
        (itemBytes items ++ ')'.toUInt8 :: rest) line warnings
      rw [Item.bytes, readArgumentsWithin_congr _ _ _ _ _ hskip,
        hrun hcloses hdeepest hcount (by omega)]
      rfl
    | opening =>
      have hdepth : depth + 2 ≤ maxParenDepth :=
        (le_deepest (depth + 2) items).trans hdeepest
      have hstep := readArgumentsWithin_opening name startLine fuel
        arguments hdepth (itemBytes items ++ ')'.toUInt8 :: rest) line
        warnings
      have hlength : (itemBytes items).length < fuel := by
        simp only [Item.bytes, List.length_singleton] at hfuel
        omega
      exact hstep.trans (hrun hcloses hdeepest hcount hlength)
    | closing =>
      obtain ⟨hdepth, hcloses⟩ := hcloses
      obtain ⟨depth, rfl⟩ := Nat.exists_eq_succ_of_ne_zero hdepth.ne'
      have hinner : deepest (depth + 1) items ≤ maxParenDepth :=
        (le_max_right _ _).trans hdeepest
      have hstep := readArgumentsWithin_closing name startLine fuel
        arguments hdepth (itemBytes items ++ ')'.toUInt8 :: rest) line
        warnings
      have hlength : (itemBytes items).length < fuel := by
        simp only [Item.bytes, List.length_singleton] at hfuel
        omega
      exact hstep.trans (hrun hcloses hinner hcount hlength)
    | argument form =>
      have hvalues : values (.argument form :: items) =
          form.value :: values items := rfl
      rw [hvalues, List.length_cons] at hcount
      have hread := readArgument_standsBefore hitem line warnings
      have hlength := length_pos_standsBefore hitem
      have hroom : arguments.length < maxArgumentsPerCommand := by omega
      have hfuel' : (itemBytes items).length < fuel := by
        rw [Item.bytes] at hfuel
        omega
      have hcount' : (arguments ++ [bounded form.value]).length +
          (values items).length ≤ maxArgumentsPerCommand := by
        rw [List.length_append, List.length_singleton]
        omega
      rw [Item.bytes, readArgumentsWithin_argument name startLine fuel _
        (startsArgument_standsBefore hitem) hroom, hread,
        hrun hcloses hdeepest hcount' hfuel', hvalues, List.append_assoc]
      rfl

theorem blank_front {blank : Blank} (h : blank.IsValid) :
    ∃ first rest, blank.bytes = first :: rest ∧
      isIdentifierChar first = false := by
  cases blank with
  | space character =>
    refine ⟨character, [], rfl, ?_⟩
    simp only [Blank.IsValid, isSpace, Bool.or_eq_true, decide_eq_true_eq] at h
    rcases h with ((rfl | rfl) | rfl) | rfl <;> decide
  | lineComment body => exact ⟨'#'.toUInt8, _, rfl, by decide⟩
  | bracketComment level body => exact ⟨'#'.toUInt8, _, rfl, by decide⟩

/-- The name ends in front of what stands between it and its parenthesis. -/
theorem takeWhile_name {command : CommandForm} {rest after : List UInt8}
    (h : command.StandsAt rest after) :
    rest.takeWhile isIdentifierChar = command.name := by
  rw [h.bytes, CommandForm.bytes, List.append_assoc]
  refine (takeWhile_append_of_stop _ _ _ h.name_chars ?_).1
  intro character hhead
  cases hgap : command.gap with
  | nil =>
    rw [hgap] at hhead
    obtain rfl := Option.some.inj hhead
    decide
  | cons blank gap =>
    obtain ⟨first, behind, hbytes, hfirst⟩ :=
      blank_front (h.gap blank (by simp [hgap]))
    rw [hgap] at hhead
    have hsame : first = character := by
      simpa [blankBytes, hbytes] using hhead
    exact hsame ▸ hfirst

theorem count_command (command : CommandForm) :
    command.bytes.count '\n'.toUInt8 = command.name.count '\n'.toUInt8 +
        (blankBytes command.gap).count '\n'.toUInt8 +
          (itemBytes command.items).count '\n'.toUInt8 := by
  have hopening : '('.toUInt8 ≠ '\n'.toUInt8 := by decide
  have hclosing : [')'.toUInt8].count '\n'.toUInt8 = 0 := by decide
  rw [CommandForm.bytes, List.count_append, List.count_append,
    List.count_cons_of_ne hopening, List.count_append, hclosing]
  omega

/-- Behind the name and its parenthesis, the loop starts at the items. -/
theorem readCommand_standsAt {command : CommandForm} {rest after : List UInt8}
    (h : command.StandsAt rest after) (line : Nat) (warnings : List Warning) :
    readCommand ⟨rest, line, warnings⟩ = ((readArgumentsWithin command.name line
          ((itemBytes command.items ++ ')'.toUInt8 :: after).length + 1) [] 1
          ⟨itemBytes command.items ++ ')'.toUInt8 :: after,
            line + command.name.count '\n'.toUInt8 +
              (blankBytes command.gap).count '\n'.toUInt8, warnings⟩).1,
        some (readArgumentsWithin command.name line
          ((itemBytes command.items ++ ')'.toUInt8 :: after).length + 1) [] 1
          ⟨itemBytes command.items ++ ')'.toUInt8 :: after,
            line + command.name.count '\n'.toUInt8 +
              (blankBytes command.gap).count '\n'.toUInt8, warnings⟩).2) := by
  have hname := takeWhile_name h
  obtain ⟨rfl, _, hgap, _, _⟩ := h
  have hbytes : command.bytes ++ after =
      command.name ++ (blankBytes command.gap ++
        '('.toUInt8 :: (itemBytes command.items ++ ')'.toUInt8 :: after)) := by
    simp [CommandForm.bytes]
  have hopen := skipIgnorable_blanks hgap
    ('('.toUInt8 :: (itemBytes command.items ++ ')'.toUInt8 :: after))
    (line + command.name.count '\n'.toUInt8) warnings
  rw [skipIgnorable_stops (stops_cons _ (by decide) (by decide))] at hopen
  simp only [readCommand, hname]
  rw [hbytes, advance_append, hopen]
  simp only [List.head?_cons, if_true, advance_cons]
  rfl

/-- Reading a command passes its source and gives what fits of its values. -/
theorem readCommand_withinCounts {command : CommandForm}
    {rest after : List UInt8} (h : command.StandsAt rest after)
    (hcounts : command.WithinCounts) (line : Nat) (warnings : List Warning) :
    readCommand ⟨rest, line, warnings⟩ =
      (⟨after, line + command.bytes.count '\n'.toUInt8, warnings⟩,
        some { name := command.name
               arguments := (values command.items).map bounded
               line := line }) := by
  have hfuel : (itemBytes command.items).length <
      (itemBytes command.items ++ ')'.toUInt8 :: after).length + 1 := by
    rw [List.length_append]
    omega
  have hrun := @readArgumentsWithin_standBefore command.name line command.items
    after warnings h.items _ 0 (line + command.name.count '\n'.toUInt8 +
      (blankBytes command.gap).count '\n'.toUInt8) [] h.closes
    hcounts.deepest_le (by simpa using hcounts.arguments_le) hfuel
  rw [Nat.zero_add] at hrun
  rw [readCommand_standsAt h, hrun, count_command, List.nil_append]
  simp only [Nat.add_assoc]

end Bomwerk.Cpp
