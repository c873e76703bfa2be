import Bomwerk.Cpp.CmakeSource

/-!
# What a well formed command stands for

A command that is marked as well formed has a source in the text, and what the
scanner gives of it is all that its source says, up to the length of an argument.
-/

namespace Bomwerk.Cpp

open Bomwerk.Core

/-! ## What is ignored -/

/-- The loop up to a closer stops in front of the first one. -/
theorem exists_of_bracketText {level : Nat} {rest body : List UInt8}
    (h : bracketText level rest = some body) :
    ClosesAtEnd level body ∧
      ∃ tail, rest = body ++ (bracketCloser level ++ tail) := by
  induction rest generalizing body with
  | nil => simp [bracketText] at h
  | cons character rest ih =>
    rw [bracketText] at h
    split at h
    · rename_i hclose
      obtain rfl := Option.some.inj h
      obtain ⟨tail, htail⟩ := List.isPrefixOf_iff_prefix.mp hclose
      refine ⟨?_, tail, htail.symm⟩
      intro before after heq
      have hlength := congrArg List.length heq
      simp only [List.length_append, List.nil_append] at hlength
      exact List.eq_nil_of_length_eq_zero (by omega)
    · rename_i hopen
      obtain ⟨behind, hbehind, rfl⟩ := Option.map_eq_some_iff.mp h
      obtain ⟨hcloses, tail, rfl⟩ := ih hbehind
      refine ⟨?_, tail, rfl⟩
      intro before after heq
      cases before with
      | nil =>
        apply absurd _ hopen
        apply List.isPrefixOf_iff_prefix.mpr
        refine ⟨after ++ tail, ?_⟩
        rw [← List.append_assoc, ← List.append_assoc, ← List.cons_append,
          ← List.cons_append]
        exact congrArg (· ++ tail) heq.symm
      | cons first before =>
        exact hcloses before after (List.cons.inj heq).2

theorem exists_newline_or_drop_takeWhile (rest : List UInt8) :
    rest.drop (rest.takeWhile (· ≠ '\n'.toUInt8)).length = [] ∨
      ∃ body tail, '\n'.toUInt8 ∉ body ∧ rest = body ++ '\n'.toUInt8 :: tail := by
  by_cases hmem : '\n'.toUInt8 ∈ rest
  · obtain ⟨body, tail, rfl, hbody⟩ := List.eq_append_cons_of_mem hmem
    exact Or.inr ⟨body, tail, hbody, rfl⟩
  · left
    have hall : rest.takeWhile (· ≠ '\n'.toUInt8) = rest := by
      rw [List.takeWhile_eq_self_iff]
      intro character hcharacter
      have hne : character ≠ '\n'.toUInt8 := by
        rintro rfl
        exact hmem hcharacter
      simpa using hne
    rw [hall, List.drop_length]

theorem skipIgnorable_nil (line : Nat) (warnings : List Warning) :
    skipIgnorable ⟨[], line, warnings⟩ = ⟨[], line, warnings⟩ := rfl

/-- One comment: the text ends in it, or it is a separator. -/
theorem skipIgnorable_hash (rest : List UInt8) (line : Nat)
    (warnings : List Warning) :
    (skipIgnorable ⟨'#'.toUInt8 :: rest, line, warnings⟩).rest = [] ∨
      ∃ (separator : Blank) (tail : List UInt8), separator.IsValid ∧
        '#'.toUInt8 :: rest = separator.bytes ++ tail := by
  cases hopen : matchBracketOpen rest with
  | some level =>
    obtain ⟨inner, rfl⟩ := exists_of_matchBracketOpen hopen
    cases hbody : bracketText level inner with
    | some body =>
      obtain ⟨hcloses, tail, rfl⟩ := exists_of_bracketText hbody
      refine Or.inr ⟨.bracketComment level body, tail, hcloses, ?_⟩
      simp [Blank.bytes]
    | none =>
      left
      have hinner := advance_append (ArgumentForm.bracketOpener level) inner
        (line + ['#'.toUInt8].count '\n'.toUInt8) warnings
      rw [length_bracketOpener] at hinner
      have hall : inner.drop inner.length = [] := List.drop_length
      rw [skipIgnorable_comment]
      simp only [skipComment, advance_cons, hopen, hinner, hbody]
      simp only [Cursor.advance, Cursor.warn, hall, skipIgnorable_nil]
  | none =>
    have hbracket : ¬StartsBracket rest := by
      rintro ⟨level, inner, rfl⟩
      rw [matchBracketOpen_opener] at hopen
      cases hopen
    rcases exists_newline_or_drop_takeWhile rest with
      hall | ⟨body, tail, hbody, rfl⟩
    · left
      rw [skipIgnorable_comment]
      simp only [skipComment, advance_cons, hopen]
      simp only [Cursor.advance, hall, skipIgnorable_nil]
    · refine Or.inr ⟨.lineComment body, tail, ⟨hbody, ?_⟩, ?_⟩
      · rintro ⟨level, inner, rfl⟩
        exact hbracket ⟨level, inner ++ '\n'.toUInt8 :: tail, by simp⟩
      · simp [Blank.bytes]

theorem blank_bytes_ne_nil (separator : Blank) : separator.bytes ≠ [] := by
  cases separator <;> simp [Blank.bytes]

/-- What is ignored is separators, unless the text ends in it. -/
theorem exists_blanks_of_skipIgnorable (rest : List UInt8) (line : Nat)
    (warnings : List Warning) :
    (skipIgnorable ⟨rest, line, warnings⟩).rest = [] ∨
      ∃ blanks : List Blank, (∀ blank ∈ blanks, blank.IsValid) ∧
        rest = blankBytes blanks ++
          (skipIgnorable ⟨rest, line, warnings⟩).rest ∧
        Stops (skipIgnorable ⟨rest, line, warnings⟩).rest := by
  induction hlength : rest.length using Nat.strong_induction_on
    generalizing rest line with
  | h length ih =>
    -- a separator in front leaves a shorter text
    have hfront : ∀ (separator : Blank) (tail : List UInt8),
        separator.IsValid → rest = separator.bytes ++ tail →
          (skipIgnorable ⟨rest, line, warnings⟩).rest = [] ∨
            ∃ blanks : List Blank, (∀ blank ∈ blanks, blank.IsValid) ∧
              rest = blankBytes blanks ++
                (skipIgnorable ⟨rest, line, warnings⟩).rest ∧
              Stops (skipIgnorable ⟨rest, line, warnings⟩).rest := by
      rintro separator tail hvalid rfl
      have hpos := List.length_pos_of_ne_nil (blank_bytes_ne_nil separator)
      rw [List.length_append] at hlength
      rw [skipIgnorable_blank hvalid]
      rcases ih tail.length (by omega) tail
        (line + separator.bytes.count '\n'.toUInt8) rfl with
        hnil | ⟨blanks, hblanks, htail, hstops⟩
      · exact Or.inl hnil
      · refine Or.inr ⟨separator :: blanks, ?_, ?_, hstops⟩
        · intro blank hmem
          rcases List.mem_cons.mp hmem with rfl | hmem
          · exact hvalid
          · exact hblanks blank hmem
        · conv_lhs => rw [htail]
          simp [blankBytes]
    cases rest with
    | nil => exact Or.inl rfl
    | cons character rest =>
      by_cases hspace : isSpace character = true
      · exact hfront (.space character) rest hspace rfl
      · by_cases hhash : character = '#'.toUInt8
        · subst hhash
          rcases skipIgnorable_hash rest line warnings with
            hnil | ⟨separator, tail, hvalid, heq⟩
          · exact Or.inl hnil
          · exact hfront separator tail hvalid heq
        · have hstops := stops_cons rest (by simpa using hspace) hhash
          rw [skipIgnorable_stops hstops]
          exact Or.inr ⟨[], by simp, rfl, hstops⟩

/-! ## Arguments -/

theorem escapes_cons {special : List UInt8} {first : Spelled}
    {spelling : List Spelled}
    (hfirst : first.character ∈ special → first.escaped = true)
    (h : Escapes special spelling) : Escapes special (first :: spelling) := by
  intro spelled hmem
  rcases List.mem_cons.mp hmem with rfl | hmem
  · exact hfirst
  · exact h spelled hmem

theorem spelledBytes_cons (first : Spelled) (spelling : List Spelled) :
    spelledBytes (first :: spelling) = first.bytes ++ spelledBytes spelling :=
  rfl

theorem exists_of_quotedText (rest : List UInt8) :
    rest.drop (quotedText rest).passed = [] ∨
      ∃ spelling tail, Escapes (text "\"\\") spelling ∧
        rest = spelledBytes spelling ++ '"'.toUInt8 :: tail := by
  have hclosed : ∀ tail, ∃ spelling behind, Escapes (text "\"\\") spelling ∧
      '"'.toUInt8 :: tail = spelledBytes spelling ++ '"'.toUInt8 :: behind :=
    fun tail => ⟨[], tail, by simp [Escapes], rfl⟩
  induction rest using quotedText.induct with
  | case1 => exact Or.inl rfl
  | case2 => exact Or.inr (hclosed [])
  | case3 => exact Or.inl (by decide)
  | case4 character hquote hescape =>
    left
    simp [quotedText, hquote, hescape]
  | case5 next rest => exact Or.inr (hclosed (next :: rest))
  | case6 next rest _ ih =>
    rw [quotedText_escape]
    rcases ih with hnil | ⟨spelling, tail, hescapes, rfl⟩
    · exact Or.inl hnil
    · exact Or.inr ⟨⟨next, true⟩ :: spelling, tail,
        escapes_cons (fun _ => rfl) hescapes, rfl⟩
  | case7 character next rest hquote hescape ih =>
    rw [quotedText_plain hquote hescape]
    rcases ih with hnil | ⟨spelling, tail, hescapes, heq⟩
    · exact Or.inl hnil
    · refine Or.inr ⟨⟨character, false⟩ :: spelling, tail,
        escapes_cons ?_ hescapes, ?_⟩
      · intro hspecial
        have hspecials : text "\"\\" = ['"'.toUInt8, '\\'.toUInt8] := by
          decide
        simp [hspecials, hquote, hescape] at hspecial
      · rw [heq]
        rfl

theorem not_mem_bareSpecial {character : UInt8}
    (hescape : character ≠ '\\'.toUInt8)
    (hends : endsBareArgument character = false) : character ∉ bareSpecial := by
  have hspecial : bareSpecial =
      [' '.toUInt8, '\t'.toUInt8, '\r'.toUInt8, '\n'.toUInt8, '('.toUInt8,
        ')'.toUInt8, '"'.toUInt8, '\\'.toUInt8] := by
    decide
  simp only [endsBareArgument, isSpace, Bool.or_eq_false_iff,
    decide_eq_false_iff_not] at hends
  simp [hspecial, hends, hescape]

/-- The text ends in a bare argument, or a delimiter stands behind it. -/
theorem exists_of_bareText (rest : List UInt8) :
    rest.drop (bareText rest).passed = [] ∨
      ∃ spelling tail, Escapes bareSpecial spelling ∧ EndsBare tail ∧
        rest = spelledBytes spelling ++ tail := by
  have hstop : ∀ (character : UInt8) (behind : List UInt8),
      endsBareArgument character = true →
        ∃ spelling tail, Escapes bareSpecial spelling ∧ EndsBare tail ∧
          character :: behind = spelledBytes spelling ++ tail :=
    fun character behind hends =>
      ⟨[], _, by simp [Escapes], ⟨character, behind, rfl, hends⟩, rfl⟩
  induction rest using bareText.induct with
  | case1 => exact Or.inl rfl
  | case2 => exact Or.inl (by decide)
  | case3 character _ hends => exact Or.inr (hstop character [] hends)
  | case4 character hescape hgoesOn =>
    left
    simp [bareText, hescape, hgoesOn]
  | case5 next rest ih =>
    rw [bareText_escape]
    rcases ih with hnil | ⟨spelling, tail, hescapes, hends, rfl⟩
    · exact Or.inl hnil
    · exact Or.inr ⟨⟨next, true⟩ :: spelling, tail,
        escapes_cons (fun _ => rfl) hescapes, hends, rfl⟩
  | case6 character next rest _ hends =>
    exact Or.inr (hstop character (next :: rest) hends)
  | case7 character next rest hescape hgoesOn ih =>
    have hgoesOn : endsBareArgument character = false := by simpa using hgoesOn
    rw [bareText_plain hgoesOn hescape]
    rcases ih with hnil | ⟨spelling, tail, hescapes, hends, heq⟩
    · exact Or.inl hnil
    · refine Or.inr ⟨⟨character, false⟩ :: spelling, tail,
        escapes_cons ?_ hescapes, hends, ?_⟩
      · intro hspecial
        exact absurd hspecial (not_mem_bareSpecial hescape hgoesOn)
      · rw [heq]
        rfl

theorem exists_of_readArgument {rest : List UInt8} (hstart : StartsArgument rest)
    (line : Nat) (warnings : List Warning) :
    (readArgument ⟨rest, line, warnings⟩).1.rest = [] ∨
      ∃ (form : ArgumentForm) (tail : List UInt8),
        form.StandsBefore tail ∧ rest = form.bytes ++ tail := by
  by_cases hquote : rest.head? = some '"'.toUInt8
  · obtain ⟨inner, rfl⟩ := List.head?_eq_some_iff.mp hquote
    rcases exists_of_quotedText inner with
      hnil | ⟨spelling, tail, hescapes, rfl⟩
    · left
      rw [readArgument, if_pos hquote]
      simp only [readQuotedArgument, advance_cons]
      split <;> simpa [Cursor.advance, Cursor.warn] using hnil
    · exact Or.inr ⟨.quoted spelling, tail, hescapes, by
        simp [ArgumentForm.bytes]⟩
  · cases hopen : matchBracketOpen rest with
    | some level =>
      obtain ⟨inner, rfl⟩ := exists_of_matchBracketOpen hopen
      cases hbody : bracketText level inner with
      | some body =>
        obtain ⟨hcloses, tail, rfl⟩ := exists_of_bracketText hbody
        exact Or.inr ⟨.bracketed level body, tail, hcloses, by
          simp [ArgumentForm.bytes]⟩
      | none =>
        left
        have hinner := advance_append (ArgumentForm.bracketOpener level)
          inner line warnings
        rw [length_bracketOpener] at hinner
        rw [readArgument, if_neg hquote]
        simp only [hopen, hinner, readBracketArgument, hbody]
        simp [Cursor.advance, Cursor.warn]
    | none =>
      rcases exists_of_bareText rest with
        hnil | ⟨spelling, tail, hescapes, hends, rfl⟩
      · left
        rw [readArgument, if_neg hquote]
        simpa only [hopen, readBareArgument, Cursor.advance] using hnil
      · refine Or.inr ⟨.bare spelling, tail,
          ⟨hescapes, hends, hstart, hquote, ?_⟩, rfl⟩
        rintro ⟨level, inner, heq⟩
        rw [heq, matchBracketOpen_opener] at hopen
        cases hopen

/-! ## Commands that are cut off -/

theorem wellFormed_nil (name : List UInt8) (startLine fuel : Nat)
    (arguments : List (List UInt8)) (depth : Nat) {cursor : Cursor}
    (h : (skipIgnorable cursor).rest = []) :
    (readArgumentsWithin name startLine fuel arguments depth
      cursor).2.wellFormed = false := by
  cases fuel with
  | zero => rfl
  | succ fuel =>
    rw [readArgumentsWithin]
    simp only [h, endPartial]

theorem wellFormed_tooDeep (name : List UInt8) (startLine fuel : Nat)
    (arguments : List (List UInt8)) {depth : Nat}
    (hdepth : maxParenDepth < depth + 1) (rest : List UInt8) (line : Nat)
    (warnings : List Warning) :
    (readArgumentsWithin name startLine fuel arguments depth
      ⟨'('.toUInt8 :: rest, line, warnings⟩).2.wellFormed = false := by
  have hstops : Stops ('('.toUInt8 :: rest) :=
    stops_cons rest (by decide) (by decide)
  have hopening : '('.toUInt8 ≠ ')'.toUInt8 := by decide
  cases fuel with
  | zero => rfl
  | succ fuel =>
    simp only [readArgumentsWithin, skipIgnorable_stops hstops, if_true,
      if_neg hopening, if_pos hdepth, endPartial]

theorem wellFormed_tooMany (name : List UInt8) (startLine fuel : Nat)
    {arguments : List (List UInt8)} (depth : Nat) {bytes : List UInt8}
    (hstart : StartsArgument bytes)
    (hcount : maxArgumentsPerCommand ≤ arguments.length) (line : Nat)
    (warnings : List Warning) :
    (readArgumentsWithin name startLine fuel arguments depth
      ⟨bytes, line, warnings⟩).2.wellFormed = false := by
  obtain ⟨hstops, hopening, hclosing, hne⟩ := hstart
  obtain ⟨first, rest, rfl⟩ := List.exists_cons_of_ne_nil hne
  have hopen : first ≠ '('.toUInt8 := by simpa using hopening
  have hclose : first ≠ ')'.toUInt8 := by simpa using hclosing
  cases fuel with
  | zero => rfl
  | succ fuel =>
    simp only [readArgumentsWithin, skipIgnorable_stops hstops,
      if_neg hopen, if_neg hclose, if_pos hcount, endPartial]

/-- A command whose source breaks a limit on counts is marked. -/
theorem wellFormed_of_not_withinCounts (name : List UInt8) (startLine : Nat)
    {items : List Item} (rest : List UInt8) (warnings : List Warning)
    (hitems : StandBefore (')'.toUInt8 :: rest) items) :
    ∀ {fuel depth line : Nat} {arguments : List (List UInt8)},
      Closes depth items → depth + 1 ≤ maxParenDepth →
        arguments.length ≤ maxArgumentsPerCommand →
          ¬(arguments.length + (values items).length ≤ maxArgumentsPerCommand ∧
            deepest (depth + 1) items ≤ maxParenDepth) →
            (readArgumentsWithin name startLine fuel arguments (depth + 1)
              ⟨itemBytes items ++ ')'.toUInt8 :: rest, line,
                warnings⟩).2.wellFormed = false := by
  induction items with
  | nil =>
    intro fuel depth line arguments _ hdepth hcount hbreaks
    exact absurd ⟨by simpa [values] using hcount, hdepth⟩ hbreaks
  | cons item items ih =>
    intro fuel depth line arguments hcloses hdepth hcount hbreaks
    obtain ⟨hitem, hbehind⟩ := hitems
    have hrun := @ih hbehind
    cases fuel with
    | zero => rfl
    | succ fuel =>
      rw [itemBytes_cons, List.append_assoc]
      cases item with
      | blank separator =>
        have hskip := skipIgnorable_blank hitem
          (itemBytes items ++ ')'.toUInt8 :: rest) line warnings
        rw [Item.bytes, readArgumentsWithin_congr _ _ _ _ _ hskip]
        exact hrun hcloses hdepth hcount hbreaks
      | opening =>
        by_cases hshallow : depth + 2 ≤ maxParenDepth
        · have hstep := readArgumentsWithin_opening name startLine fuel
            arguments hshallow (itemBytes items ++ ')'.toUInt8 :: rest)
            line warnings
          rw [Item.bytes, List.singleton_append, hstep]
          exact hrun hcloses hshallow hcount hbreaks
        · exact wellFormed_tooDeep name startLine _ arguments (by omega) _
            line warnings
      | closing =>
        obtain ⟨hopen, hcloses⟩ := hcloses
        obtain ⟨depth, rfl⟩ := Nat.exists_eq_succ_of_ne_zero hopen.ne'
        have hstep := readArgumentsWithin_closing name startLine fuel
          arguments hopen (itemBytes items ++ ')'.toUInt8 :: rest) line
          warnings
        rw [Item.bytes, List.singleton_append, hstep]
        apply hrun hcloses (by omega) hcount
        rintro ⟨hvalues, hinner⟩
        exact hbreaks ⟨hvalues, max_le hdepth hinner⟩
      | argument form =>
        have hstart := startsArgument_standsBefore hitem
        have hvalues : values (.argument form :: items) =
            form.value :: values items := rfl
        rw [hvalues, List.length_cons] at hbreaks
        by_cases hroom : arguments.length < maxArgumentsPerCommand
        · have hread := readArgument_standsBefore hitem line warnings
          rw [Item.bytes, readArgumentsWithin_argument name startLine fuel
            _ hstart hroom, hread]
          apply hrun hcloses hdepth
          · rw [List.length_append, List.length_singleton]
            omega
          · rw [List.length_append, List.length_singleton]
            intro hfits
            exact hbreaks ⟨by omega, hfits.2⟩
        · exact wellFormed_tooMany name startLine _ _ hstart (by omega)
            line warnings

/-! ## Commands that are closed -/

theorem itemBytes_blanks (blanks : List Blank) (items : List Item) :
    itemBytes (blanks.map Item.blank ++ items) =
      blankBytes blanks ++ itemBytes items := by
  induction blanks with
  | nil => rfl
  | cons blank blanks ih =>
    rw [List.map_cons, List.cons_append, itemBytes_cons, ih, blankBytes,
      blankBytes, List.flatMap_cons, List.append_assoc]
    rfl

theorem standBefore_blanks {blanks : List Blank} {following : List UInt8}
    {items : List Item} (hblanks : ∀ blank ∈ blanks, blank.IsValid)
    (hitems : StandBefore following items) :
    StandBefore following (blanks.map Item.blank ++ items) := by
  induction blanks with
  | nil => exact hitems
  | cons blank blanks ih =>
    exact ⟨hblanks blank (by simp),
      ih fun other hmem => hblanks other (by simp [hmem])⟩

theorem closes_blanks (blanks : List Blank) {depth : Nat} {items : List Item}
    (h : Closes depth items) :
    Closes depth (blanks.map Item.blank ++ items) := by
  induction blanks with
  | nil => exact h
  | cons blank blanks ih => exact ih

/-- Items stand here up to the parenthesis that ends their command. -/
def HasItems (depth : Nat) (rest : List UInt8) : Prop :=
  ∃ items after, rest = itemBytes items ++ ')'.toUInt8 :: after ∧
    StandBefore (')'.toUInt8 :: after) items ∧ Closes depth items

theorem hasItems_blanks {depth : Nat} {blanks : List Blank}
    {rest : List UInt8} (hblanks : ∀ blank ∈ blanks, blank.IsValid)
    (h : HasItems depth rest) : HasItems depth (blankBytes blanks ++ rest) := by
  obtain ⟨items, after, rfl, hitems, hcloses⟩ := h
  refine ⟨blanks.map Item.blank ++ items, after, ?_,
    standBefore_blanks hblanks hitems, closes_blanks blanks hcloses⟩
  rw [itemBytes_blanks, List.append_assoc]

theorem hasItems_closing {depth : Nat} {rest : List UInt8}
    (h : HasItems depth rest) : HasItems (depth + 1) (')'.toUInt8 :: rest) := by
  obtain ⟨items, after, rfl, hitems, hcloses⟩ := h
  exact ⟨.closing :: items, after, rfl, ⟨trivial, hitems⟩,
    ⟨Nat.succ_pos depth, hcloses⟩⟩

theorem hasItems_opening {depth : Nat} {rest : List UInt8}
    (h : HasItems (depth + 1) rest) : HasItems depth ('('.toUInt8 :: rest) := by
  obtain ⟨items, after, rfl, hitems, hcloses⟩ := h
  exact ⟨.opening :: items, after, rfl, ⟨trivial, hitems⟩, hcloses⟩

theorem hasItems_argument {depth : Nat} {form : ArgumentForm}
    {rest : List UInt8} (hform : form.StandsBefore rest)
    (h : HasItems depth rest) : HasItems depth (form.bytes ++ rest) := by
  obtain ⟨items, after, rfl, hitems, hcloses⟩ := h
  refine ⟨.argument form :: items, after, ?_, ⟨hform, hitems⟩, hcloses⟩
  rw [itemBytes_cons, List.append_assoc]
  rfl

/-- One run of the argument loop: what ends well formed has its items here. -/
theorem hasItems_of_wellFormed (name : List UInt8) (startLine : Nat) :
    ∀ {fuel depth line : Nat} {arguments : List (List UInt8)}
      {rest : List UInt8} {warnings : List Warning},
      (readArgumentsWithin name startLine fuel arguments (depth + 1)
        ⟨rest, line, warnings⟩).2.wellFormed = true → HasItems depth rest := by
  intro fuel
  induction fuel with
  | zero => exact fun h => Bool.noConfusion h
  | succ fuel ih =>
    intro depth line arguments rest warnings h
    rcases exists_blanks_of_skipIgnorable rest line warnings with
      hnil | ⟨blanks, hblanks, heq, hstops⟩
    · rw [wellFormed_nil _ _ _ _ _ hnil] at h
      cases h
    rw [heq]
    apply hasItems_blanks hblanks
    rw [readArgumentsWithin] at h
    generalize skipIgnorable ⟨rest, line, warnings⟩ = cursor at h hstops ⊢
    obtain ⟨inner, line, warnings⟩ := cursor
    cases inner with
    | nil => exact Bool.noConfusion h
    | cons first inner =>
      by_cases hclosing : first = ')'.toUInt8
      · subst hclosing
        cases depth with
        | zero => exact ⟨[], inner, rfl, trivial, rfl⟩
        | succ depth =>
          have hinner : depth + 1 + 1 ≠ 1 := by omega
          simp only [if_true, if_neg hinner, advance_cons] at h
          exact hasItems_closing (ih h)
      by_cases hopening : first = '('.toUInt8
      · subst hopening
        by_cases hdeep : maxParenDepth < depth + 1 + 1
        · simp only [if_neg hclosing, if_pos hdeep, if_true, endPartial] at h
          cases h
        · simp only [if_neg hclosing, if_neg hdeep, if_true, advance_cons] at h
          exact hasItems_opening (ih h)
      by_cases hmany : maxArgumentsPerCommand ≤ arguments.length
      · simp only [if_neg hclosing, if_neg hopening, if_pos hmany,
          endPartial] at h
        cases h
      · simp only [if_neg hclosing, if_neg hopening, if_neg hmany] at h
        obtain ⟨hspace, hcomment⟩ := hstops first rfl
        have hstart := startsArgument_cons inner hspace hcomment hopening
          hclosing
        rcases exists_of_readArgument hstart line warnings with
          hend | ⟨form, tail, hform, hbytes⟩
        · have hskip : (skipIgnorable (readArgument
              ⟨first :: inner, line, warnings⟩).1).rest = [] := by
            rw [skipIgnorable, hend]
            exact hend
          rw [wellFormed_nil _ _ _ _ _ hskip] at h
          cases h
        · simp only [hbytes, readArgument_standsBefore hform] at h ⊢
          exact hasItems_argument hform (ih h)

theorem exists_standsAt_of_wellFormed {rest : List UInt8} {line : Nat}
    {warnings : List Warning} {command : CmakeCommand}
    (h : (readCommand ⟨rest, line, warnings⟩).2 = some command)
    (hwell : command.wellFormed = true) :
    ∃ (form : CommandForm) (after : List UInt8), form.StandsAt rest after := by
  set name := rest.takeWhile isIdentifierChar with hname
  have hsplit : rest = name ++ rest.drop name.length := by
    have hstarts : name = rest.take name.length :=
      List.prefix_iff_eq_take.mp (List.takeWhile_prefix _)
    conv_lhs => rw [← List.take_append_drop name.length rest, ← hstarts]
  set behind := rest.drop name.length with hbehind
  have hpast : Cursor.advance ⟨rest, line, warnings⟩ name.length =
      ⟨behind, line + name.count '\n'.toUInt8, warnings⟩ := by
    conv_lhs => rw [hsplit]
    exact advance_append name behind line warnings
  simp only [readCommand, ← hname, hpast] at h
  split at h
  · rename_i hopening
    rcases exists_blanks_of_skipIgnorable behind
        (line + name.count '\n'.toUInt8) warnings with
      hnil | ⟨blanks, hblanks, heq, _⟩
    · rw [hnil] at hopening
      cases hopening
    generalize skipIgnorable ⟨behind, line + name.count '\n'.toUInt8,
      warnings⟩ = cursor at h hopening heq
    obtain ⟨inner, _, _⟩ := cursor
    obtain ⟨inner, rfl⟩ := List.head?_eq_some_iff.mp hopening
    simp only [advance_cons] at h
    obtain rfl := Option.some.inj h
    obtain ⟨items, after, rfl, hitems, hcloses⟩ :=
      hasItems_of_wellFormed name line hwell
    refine ⟨{ name := name, gap := blanks, items := items }, after, ?_, ?_,
      hblanks, hitems, hcloses⟩
    · rw [hsplit, heq]
      simp [CommandForm.bytes]
    · intro character hmem
      exact List.mem_takeWhile_imp hmem
  · cases h

/-- A command that was read here is marked as well formed only if a parenthesis
closes it, it is within every limit, and its arguments are those of the text. -/
def FlagHonest (rest : List UInt8) (command : CmakeCommand) : Prop :=
  command.wellFormed = true →
    (∃ (form : CommandForm) (after : List UInt8), form.StandsAt rest after) ∧
      ∀ (form : CommandForm) (after : List UInt8), form.StandsAt rest after →
        command.name = form.name ∧ command.arguments = values form.items ∧
          form.WithinCounts ∧
          ∀ value ∈ values form.items, value.length ≤ maxArgumentBytes

/-- The command here is closed and within the limits on counts, and one of its
arguments is longer than the scanner keeps. -/
def HasLongArgument (rest : List UInt8) : Prop :=
  ∃ (form : CommandForm) (after : List UInt8), form.StandsAt rest after ∧
    form.WithinCounts ∧
    ∃ value ∈ values form.items, maxArgumentBytes < value.length

theorem withinCounts_of_wellFormed {rest after : List UInt8} {line : Nat}
    {warnings : List Warning} {command : CmakeCommand}
    (h : (readCommand ⟨rest, line, warnings⟩).2 = some command)
    (hwell : command.wellFormed = true) {form : CommandForm}
    (hform : form.StandsAt rest after) : form.WithinCounts := by
  rw [readCommand_standsAt hform] at h
  obtain rfl := Option.some.inj h
  by_contra hcounts
  rw [wellFormed_of_not_withinCounts form.name line after warnings hform.items
    hform.closes (by decide) (Nat.zero_le _) ?_] at hwell
  · cases hwell
  · rintro ⟨hvalues, hdeepest⟩
    exact hcounts ⟨by simpa using hvalues, hdeepest⟩

/-- The flag is honest about a command unless an argument of it was cut. -/
theorem flagHonest_iff {rest : List UInt8} {line : Nat}
    {warnings : List Warning} {command : CmakeCommand}
    (h : (readCommand ⟨rest, line, warnings⟩).2 = some command) :
    FlagHonest rest command ↔ ¬HasLongArgument rest := by
  constructor
  · rintro honest ⟨form, after, hform, hcounts, value, hmem, hlong⟩
    rw [readCommand_withinCounts hform hcounts] at h
    obtain rfl := Option.some.inj h
    obtain ⟨_, hall⟩ := honest rfl
    obtain ⟨_, _, _, hsize⟩ := hall form after hform
    exact absurd (hsize value hmem) (not_le.mpr hlong)
  · intro hshort hwell
    refine ⟨exists_standsAt_of_wellFormed h hwell, ?_⟩
    intro form after hform
    have hcounts := withinCounts_of_wellFormed h hwell hform
    have hsize : ∀ value ∈ values form.items,
        value.length ≤ maxArgumentBytes := by
      intro value hmem
      by_contra hlong
      exact hshort ⟨form, after, hform, hcounts, value, hmem, not_le.mp hlong⟩
    rw [readCommand_withinCounts hform hcounts] at h
    obtain rfl := Option.some.inj h
    refine ⟨rfl, ?_, hcounts, hsize⟩
    exact (List.map_congr_left fun value hmem =>
      bounded_eq_self (hsize value hmem)).trans (List.map_id _)

/-! ## The commands of a text -/

/-- Where the loop of `scan` reads its commands. -/
def commandPlacesWithin : (fuel : Nat) → (found : Nat) → Cursor → List Cursor
  | 0, _, _ => []
  | fuel + 1, found, cursor =>
    let cursor := skipIgnorable cursor
    match cursor.rest with
    | [] => []
    | character :: _ =>
      if maxCommandsPerFile ≤ found then []
      else if isIdentifierStart character then
        match readCommand cursor with
        | (behind, some _) =>
          cursor :: commandPlacesWithin fuel (found + 1) behind
        | (behind, none) => commandPlacesWithin fuel found behind
      else commandPlacesWithin fuel found (cursor.advance 1)

def commandPlaces (bytes : List UInt8) : List Cursor :=
  commandPlacesWithin (bytes.length + 1) 0 { rest := bytes }

/-- One run of the scan records what is read at these places, in order. -/
theorem scanWithin_places (fuel : Nat) (commands : List CmakeCommand)
    (cursor : Cursor) :
    ∃ found, (scanWithin fuel commands cursor).value = commands ++ found ∧
      List.Forall₂ (fun place command => (readCommand place).2 = some command)
        (commandPlacesWithin fuel commands.length cursor) found := by
  induction fuel generalizing commands cursor with
  | zero => exact ⟨[], by simp [scanWithin], .nil⟩
  | succ fuel ih =>
    rw [scanWithin, commandPlacesWithin]
    generalize skipIgnorable cursor = cursor
    obtain ⟨rest, line, warnings⟩ := cursor
    cases rest with
    | nil => exact ⟨[], by simp, .nil⟩
    | cons character rest =>
      by_cases hfull : maxCommandsPerFile ≤ commands.length
      · simp only [if_pos hfull]
        exact ⟨[], by simp, .nil⟩
      by_cases hstart : isIdentifierStart character = true
      · simp only [if_neg hfull, hstart, if_true]
        cases hread : readCommand ⟨character :: rest, line, warnings⟩ with
        | mk behind command =>
          cases command with
          | none => simpa using ih commands behind
          | some command =>
            obtain ⟨found, hvalue, hfound⟩ :=
              ih (commands ++ [command]) behind
            rw [List.length_append, List.length_singleton] at hfound
            refine ⟨command :: found, ?_, .cons (by rw [hread]) hfound⟩
            simpa using hvalue
      · simp only [if_neg hfull, if_neg hstart]
        exact ih commands _

theorem forall₂_commandPlaces (bytes : List UInt8) :
    List.Forall₂ (fun place command => (readCommand place).2 = some command)
      (commandPlaces bytes) (scanCmakeCommands bytes).value := by
  obtain ⟨found, hvalue, hfound⟩ :=
    scanWithin_places (bytes.length + 1) [] { rest := bytes }
  rw [scanCmakeCommands, hvalue]
  exact hfound

theorem forall₂_flagHonest_iff {places : List Cursor}
    {commands : List CmakeCommand}
    (h : List.Forall₂
      (fun place command => (readCommand place).2 = some command)
      places commands) :
    List.Forall₂ (fun place command => FlagHonest place.rest command)
        places commands ↔
      ∀ place ∈ places, ¬HasLongArgument place.rest := by
  induction h with
  | nil => simp
  | cons hfirst _ ih =>
    rw [List.forall₂_cons, ih, flagHonest_iff hfirst]
    simp

/-- The flags of a text are honest exactly when none of its commands that are
closed and within the limits on counts has an argument that is cut. -/
theorem scanCmakeCommands_honest_iff (bytes : List UInt8) :
    List.Forall₂ (fun place command => FlagHonest place.rest command)
        (commandPlaces bytes) (scanCmakeCommands bytes).value ↔
      ∀ place ∈ commandPlaces bytes, ¬HasLongArgument place.rest :=
  forall₂_flagHonest_iff (forall₂_commandPlaces bytes)

theorem mem_commandPlaces_of_standsAt {command : CommandForm}
    {first : UInt8} {behind after : List UInt8}
    (hstands : command.StandsAt (first :: behind) after)
    (hwithin : command.WithinCounts) (hstops : Stops (first :: behind))
    (hstart : isIdentifierStart first = true) :
    ({ rest := first :: behind } : Cursor) ∈
      commandPlaces (first :: behind) := by
  have hread := readCommand_withinCounts hstands hwithin 1 []
  have hroom : ¬maxCommandsPerFile ≤ 0 := by decide
  rw [commandPlaces, commandPlacesWithin, skipIgnorable_stops hstops]
  simp [hroom, hstart, hread]

def longArgument : CommandForm where
  name := text "f"
  items := [.argument (.bare
    (List.replicate (maxArgumentBytes + 1) { character := 'a'.toUInt8 }))]

theorem spelledBytes_replicate (count : Nat) (character : UInt8) :
    spelledBytes (List.replicate count { character := character }) =
      List.replicate count character := by
  induction count with
  | zero => rfl
  | succ count ih =>
    rw [List.replicate_succ, spelledBytes_cons, ih]
    rfl

theorem standsAt_longArgument :
    longArgument.StandsAt longArgument.bytes [] where
  bytes := (List.append_nil _).symm
  name_chars := by
    intro character hmem
    obtain rfl := List.mem_singleton.mp hmem
    decide
  gap := by simp [longArgument]
  items := by
    refine ⟨⟨?_, ⟨')'.toUInt8, [], rfl, by decide⟩, ?_, ?_, ?_⟩, trivial⟩
    · intro spelled hmem
      rw [List.eq_of_mem_replicate hmem]
      decide
    · rw [spelledBytes_replicate, List.replicate_succ]
      exact startsArgument_cons _ (by decide) (by decide) (by decide)
        (by decide)
    · rw [spelledBytes_replicate, List.replicate_succ]
      simp only [List.cons_append, List.head?_cons]
      decide
    · rw [spelledBytes_replicate, List.replicate_succ]
      rintro ⟨level, inner, heq⟩
      exact absurd (List.cons.inj heq).1 (by decide)
  closes := rfl

theorem withinCounts_longArgument : longArgument.WithinCounts :=
  ⟨by decide, by decide⟩

theorem hasLongArgument_longArgument : HasLongArgument longArgument.bytes := by
  refine ⟨longArgument, [], standsAt_longArgument, withinCounts_longArgument,
    _, List.mem_singleton_self _, ?_⟩
  simp [ArgumentForm.value, spelledValue]

theorem mem_commandPlaces_longArgument :
    ({ rest := longArgument.bytes } : Cursor) ∈
      commandPlaces longArgument.bytes := by
  obtain ⟨behind, hbytes⟩ :
      ∃ behind, longArgument.bytes = 'f'.toUInt8 :: behind := ⟨_, rfl⟩
  have hstands := standsAt_longArgument
  rw [hbytes] at hstands ⊢
  exact mem_commandPlaces_of_standsAt hstands withinCounts_longArgument
    (stops_cons _ (by decide) (by decide)) (by decide)

theorem scanCmakeCommands_not_honest :
    ¬∀ bytes : List UInt8,
      List.Forall₂ (fun place command => FlagHonest place.rest command)
        (commandPlaces bytes) (scanCmakeCommands bytes).value := by
  intro hall
  have hshort := (forall₂_flagHonest_iff
    (forall₂_commandPlaces longArgument.bytes)).mp (hall longArgument.bytes)
  exact hshort _ mem_commandPlaces_longArgument hasLongArgument_longArgument

end Bomwerk.Cpp
